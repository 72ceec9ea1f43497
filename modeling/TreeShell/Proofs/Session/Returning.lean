import TreeShell.Proofs.Session.Confinement
import TreeShell.Proofs.Session.Operands
import TreeShell.Proofs.Settling

/-!
# The way home

The home directory is read in three ways: as a path, when a boot makes it; as a text whose slashes
at the end do not count, when the working directory is changed; and as a text as it is, when a
prompt shows the working directory. After a boot the session can go home just if the first two
agree, and the prompt shows a tilde for it just if all three do.
-/

namespace TreeShell

open TreeShell.Action TreeShell.Path

namespace Text

/-- What is left without a start is what goes on from it. -/
theorem withoutStart_append (start rest : String) : withoutStart (start ++ rest) start = rest := by
  have hdrop : dropStart? start.toList (start ++ rest).toList = some rest.toList := by
    rw [dropStart?_eq_some_iff, String.toList_append]
  rw [withoutStart, hdrop]
  exact String.ofList_toList

/-- A text begins with what is left of it without the slashes at its end. -/
theorem exists_eq_withoutEndSlashes_append (s : String) :
    ∃ rest, s = withoutEndSlashes s ++ rest := by
  obtain ⟨k, hk⟩ := exists_append_replicate '/' s.toList
  refine ⟨String.ofList (List.replicate k '/'), ?_⟩
  rw [← String.toList_inj, String.toList_append, withoutEndSlashes, String.toList_ofList,
    String.toList_ofList]
  exact hk

end Text

/-! ## Commands that are not found -/

namespace Session

variable {s : Session} {line name : String} {words : List String}

/-- A line of one command exits with the code for that, if the command is not found. -/
theorem code_of_missing (h : Line.IsCommand line name words) (hplain : s.expandAlias line = line)
    {e : UnitError} (hne : ∀ r, e ≠ .content r)
    (hload : s.registry.load s.volume.tree name s.bin = .error e) :
    (s.run line).1.code = .ok unknown := by
  obtain ⟨history, hremember⟩ := s.exists_remember (Text.trimmed line)
  let j : Job := ⟨{ s with history }, stagePool⟩
  have hrun := Job.runStage_of_ready (j := j) (resolve_of_isCommand h s.cwd j.wiring) rfl
  have hcommand : (j.rewire j.wiring).runCommand name (commandStage name words) j.session.cwd
      stageEnds.errors = _ := Job.runCommand_of_error hne hload
  have hcode : (j.runStage line stageEnds).1 = .ok (unknown, false) := by
    rw [hrun, hcommand, Job.report, Job.write_of_not_file fun path cwd hfile => by cases hfile]
    rfl
  have hstage : (⟨s.remember (Text.trimmed line), stagePool⟩ : Job).runStage line stageEnds =
      (.ok (unknown, false), (j.runStage line stageEnds).2) := by
    rw [hremember]
    exact Prod.ext hcode rfl
  rw [run_of_one h.one hplain hstage]

end Session

/-! ## Changes of the working directory -/

namespace Utility

variable {ctx : Context} {j : Job}

/-- The operand that the working directory is changed by: the home directory, if there is none. -/
def cdOperand (words : List String) : String := (Options.sort words).1.headD "~"

/-- A change of the directory that succeeds sets the variable. -/
theorem result_cd_of_ok {target : String}
    (h : j.session.directoryAt (ctx.arguments.headD "~") = .ok target) :
    result (cd ctx) j = (.ok success, j.mapSession fun s =>
      { s with env := ⟨s.env.vars.set "PWD" target⟩ }) := by
  rw [cd, result_bind, result_session]
  dsimp only
  rw [Session.changeDirectory_of_ok h]
  rfl

/-- One that fails is complained about. -/
theorem result_cd_of_error (htakes : j.pool.Takes (j.pool.endOf ctx.ends.errors)) {e : ChangeError}
    (h : j.session.directoryAt (ctx.arguments.headD "~") = .error e) :
    ∃ line, result (cd ctx) j =
      (.ok failure, { j with pool := j.pool.write ctx.ends.errors (line ++ "\n") }) := by
  rw [cd, result_bind, result_session]
  dsimp only
  rw [Session.changeDirectory_of_error h]
  cases e with
  | path e =>
    refine ⟨"cd: " ++ e.message, ?_⟩
    dsimp only
    rw [result_bind, result_complain htakes]
    rfl
  | outside given home =>
    refine ⟨"cd: permission denied: " ++ ctx.arguments.headD "~" ++
      " (restricted to home directory)", ?_⟩
    dsimp only
    rw [result_bind, result_complain htakes]
    rfl

end Utility

namespace Session

variable {s s' : Session} {line path : String} {words : List String} {place q : Segments}

/-- A session with another working directory, after the line that changed it. -/
def movedTo (s : Session) (target : String) (history : List String) : Session :=
  { s with env := ⟨s.env.vars.set "PWD" target⟩, history }

/-- A session that moved has all other variables as before. -/
theorem get?_movedTo {name : String} (h : name ≠ "PWD") (target : String) (history : List String) :
    (s.movedTo target history).env.get? name = s.env.get? name :=
  OrderedMap.get?_set_of_ne h _ _

/-- A session that moved has the same home. -/
theorem home_movedTo (target : String) (history : List String) :
    (s.movedTo target history).home = s.home := by
  rw [home, Environment.nonEmptyOr, get?_movedTo (by decide), ← Environment.nonEmptyOr, ← home]

/-- A session that moved has the new directory. -/
theorem cwd_movedTo (p : Segments) (history : List String) :
    (s.movedTo (format p) history).cwd = format p :=
  Environment.nonEmptyOr_format (OrderedMap.get?_set_self _ _ _)

/-- What can be run does not depend on the working directory. -/
theorem Runs.movedTo {name : String} {program : Program} (h : s.Runs name program) (target : String)
    (history : List String) : (s.movedTo target history).Runs name program := by
  obtain ⟨c, hload, hc⟩ := h.loads
  have hbin : (s.movedTo target history).bin = s.bin := by
    rw [bin, Environment.nonEmptyOr, get?_movedTo (by decide), ← Environment.nonEmptyOr, ← bin]
  refine ⟨h.plain, c, ?_, hc⟩
  rw [hbin]
  exact hload

/-- What a line comes to that changes the working directory. -/
inductive Enters (s : Session) (path : String) : Outcome × Session → Prop where
  | entered {target : String} (h : s.directoryAt path = .ok target) (history : List String) :
    Enters s path (⟨.ok success, "", ""⟩, s.movedTo target history)
  | refused {e : ChangeError} (h : s.directoryAt path = .error e) (told : String)
    (history : List String) : Enters s path (⟨.ok failure, "", told⟩, { s with history })

/-- The errors of a line take what is written to them. -/
theorem takes_stagePool : stagePool.Takes (stagePool.endOf stageEnds.errors) := by
  have hend : stagePool.endOf stageEnds.errors = .keeper 1 := rfl
  rw [hend]
  exact (by decide : 1 < 5)

/-- Such a line does one of the two, by where its operand leads. -/
theorem enters (hcd : s.Runs "cd" .cd) (hline : Line.IsCommand line "cd" words)
    (hplain : s.expandAlias line = line) : s.Enters (Utility.cdOperand words) (s.run line) := by
  obtain ⟨c, hload, hc⟩ := hcd.loads
  obtain ⟨history, hrun⟩ := run_of_isCommand hline hplain hload
  have hprogram : c.program.run = Utility.cd := by
    rw [hc]
    rfl
  rw [hprogram] at hrun
  let j : Job := ⟨{ s with history }, stagePool⟩
  have hcontext : (j.contextOf (commandStage "cd" words) s.cwd).arguments.headD "~" =
      Utility.cdOperand words := rfl
  cases hat : s.directoryAt (Utility.cdOperand words) with
  | ok target =>
    have hresult : result (Utility.cd (j.contextOf (commandStage "cd" words) s.cwd)) j = _ :=
      Utility.result_cd_of_ok (by rw [hcontext]; exact hat)
    rw [hrun hresult]
    exact .entered hat history
  | error e =>
    have htakes : j.pool.Takes (j.pool.endOf
      (j.contextOf (commandStage "cd" words) s.cwd).ends.errors) := takes_stagePool
    obtain ⟨told, hresult⟩ := Utility.result_cd_of_error htakes (by rw [hcontext]; exact hat)
    rw [hrun hresult]
    exact .refused hat _ history

/-! ## What the prompt shows -/

/-- The prompt of a session with something shown for the working directory. -/
def promptFor (s : Session) (shown : String) : String :=
  s.env.vars.getD "USER" "" ++ "@" ++ s.env.vars.getD "HOSTNAME" "" ++ ":" ++ shown ++ "$ "

theorem prompt_eq (s : Session) : s.prompt = s.promptFor (s.displayPath s.cwd) := rfl

/-- The prompt after the working directory was changed. -/
theorem prompt_movedTo (p : Segments) (history : List String) :
    (s.movedTo (format p) history).prompt = s.promptFor (s.displayPath (format p)) := by
  have huser : (s.movedTo (format p) history).env.get? "USER" = s.env.get? "USER" :=
    get?_movedTo (by decide) _ _
  have hhost : (s.movedTo (format p) history).env.get? "HOSTNAME" = s.env.get? "HOSTNAME" :=
    get?_movedTo (by decide) _ _
  rw [Environment.get?, Environment.get?] at huser hhost
  rw [prompt_eq, cwd_movedTo, displayPath, home_movedTo, ← displayPath, promptFor, promptFor,
    OrderedMap.getD, OrderedMap.getD, huser, hhost]
  rfl

/-- Different directories make different prompts. -/
theorem promptFor_injective {shown shown' : String} (h : s.promptFor shown = s.promptFor shown') :
    shown = shown' := by
  simpa only [promptFor, String.append_left_inj, String.append_right_inj] using h

/-- What is shown for the home directory itself. -/
theorem displayPath_home (hhome : s.home = format place) : s.displayPath (format place) = "~" := by
  rw [displayPath, hhome, if_pos rfl]

/-- What is shown for a place below the home directory. -/
theorem displayPath_below (hhome : s.home = format place) (hproper : ∀ x ∈ place, IsProper x)
    (hplace : place ≠ []) (hq : q ≠ []) :
    s.displayPath (format (place ++ q)) = "~/" ++ Text.join "/" q := by
  have happend := format_append hplace hq
  have hne : format (place ++ q) ≠ format place := by
    intro he
    rw [happend] at he
    have hlength := congrArg String.length he
    rw [String.length_append, String.length_append] at hlength
    have hslash : "/".length = 1 := rfl
    omega
  have hroot : format place ≠ "/" := fun he =>
    hplace (format_injective hproper (List.forall_mem_nil _) he)
  have hstart : Text.hasStart (format (place ++ q)) (format place ++ "/") = true :=
    Text.hasStart_iff_append.mpr ⟨Text.join "/" q, by rw [happend, String.append_assoc]⟩
  rw [displayPath, hhome, if_neg hne, if_pos ⟨hroot, hstart⟩, happend, Text.withoutStart_append,
    ← String.append_assoc]
  rfl

/-- A home directory with slashes at its end is not shown as such. -/
theorem displayPath_of_slashes (htrim : Text.withoutEndSlashes s.home = format place)
    (hne : s.home ≠ format place) : s.displayPath (format place) = format place := by
  have hstart : Text.hasStart (format place) (s.home ++ "/") = false := by
    rw [Bool.eq_false_iff]
    intro hstart
    obtain ⟨rest, hrest⟩ := Text.hasStart_iff_append.mp hstart
    obtain ⟨slashes, hslashes⟩ := Text.exists_eq_withoutEndSlashes_append s.home
    rw [htrim] at hslashes
    have hlength := congrArg String.length hrest
    rw [hslashes, String.length_append, String.length_append, String.length_append] at hlength
    have hslash : "/".length = 1 := rfl
    omega
  rw [displayPath, if_neg (Ne.symm hne), if_neg (by simp [hstart])]

/-! ## Where the home directory leads -/

/-- A tilde stands for the home directory. -/
theorem expandHome_tilde (s : Session) : s.expandHome "~" = s.home := by
  have hnone : String.ofList ("~".toList.drop 1) = "" := rfl
  rw [expandHome, if_pos (Or.inl rfl), hnone, String.append_empty]

/-- Only a home directory that begins with a slash has places within it, or one of slashes only. -/
theorem hasStart_of_insideHome (hne : Text.withoutEndSlashes s.home ≠ "")
    (h : s.insideHome (format q) = true) : Text.hasStart s.home "/" = true := by
  obtain ⟨rest, hrest⟩ : ∃ rest, format q = Text.withoutEndSlashes s.home ++ rest := by
    rw [insideHome, Bool.or_eq_true, beq_iff_eq, if_neg hne] at h
    rcases h with hsame | hstart
    · exact ⟨"", by rw [String.append_empty]; exact hsame⟩
    · obtain ⟨rest, hrest⟩ := Text.hasStart_iff_append.mp hstart
      exact ⟨"/" ++ rest, by rw [hrest, String.append_assoc]⟩
  obtain ⟨slashes, hslashes⟩ := Text.exists_eq_withoutEndSlashes_append s.home
  obtain ⟨c, cs, hcs⟩ := List.exists_cons_of_ne_nil (mt String.toList_eq_nil_iff.mp hne)
  have hfirst := congrArg String.toList hrest
  rw [toList_format, String.toList_append, hcs, List.cons_append] at hfirst
  obtain ⟨rfl, -⟩ := List.cons.inj hfirst
  refine Text.hasStart_iff.mpr ⟨cs ++ slashes.toList, ?_⟩
  have hhome := congrArg String.toList hslashes
  rw [String.toList_append, hcs] at hhome
  exact hhome

theorem isCommand_cd : Line.IsCommand "cd" "cd" [] := ⟨by decide +kernel, by decide +kernel⟩

/-- The command is left as it is when it is no alias. -/
theorem expandAlias_cd (h : s.aliases.get? "cd" = none) : s.expandAlias "cd" = "cd" := by
  have hfirst : Text.firstWord "cd".toList = some ("cd".toList, none) := by decide +kernel
  exact expandAlias_of_firstWord hfirst (by rw [String.ofList_toList]; exact h)

section Home

variable (hplace : resolve s.home "/" = place) (hroot : place ≠ [])
include hplace hroot

/-- A home other than the root is not empty without the slashes at its end. -/
theorem withoutEndSlashes_home_ne : Text.withoutEndSlashes s.home ≠ "" := by
  intro hempty
  have hpath := resolve_withoutEndSlashes s.home
  rw [hempty, hplace] at hpath
  exact hroot hpath.symm

/-- A session can go home if the home directory is, without the slashes at its end, the path of a
place where there is a directory. -/
theorem directoryAt_home (htrim : Text.withoutEndSlashes s.home = format place)
    (hdirectory : s.volume.tree.item?.HasDirectory place) :
    s.directoryAt "~" = .ok (format place) := by
  have hproper : ∀ x ∈ place, IsProper x := hplace ▸ proper_resolve_root s.home
  have hinside : s.insideHome (format place) = true :=
    (insideHome_iff hproper).mpr (.inr ⟨place, hproper, htrim, List.prefix_refl place⟩)
  have hstart := hasStart_of_insideHome (withoutEndSlashes_home_ne hplace hroot) hinside
  have htarget : resolve (s.expandHome "~") s.cwd = place := by
    rw [expandHome_tilde, resolve_of_hasStart hstart, hplace]
  rw [directoryAt_of_directory htarget hproper hdirectory, hinside, if_neg Bool.noConfusion]

/-- A session can go home only if the home directory is such a path. -/
theorem withoutEndSlashes_of_directoryAt {target : String} (h : s.directoryAt "~" = .ok target) :
    Text.withoutEndSlashes s.home = format place := by
  obtain ⟨rfl, hinside⟩ := directoryAt_eq_ok h
  have hne := withoutEndSlashes_home_ne hplace hroot
  have hstart := hasStart_of_insideHome hne hinside
  have hproper : ∀ x ∈ place, IsProper x := hplace ▸ proper_resolve_root s.home
  rw [expandHome_tilde, resolve_of_hasStart hstart, hplace] at hinside
  obtain ⟨p, hp, hpath, -⟩ := ((insideHome_iff hproper).mp hinside).resolve_left hne
  have hsame : p = place := by
    rw [← hplace, ← resolve_withoutEndSlashes, hpath, resolve_format hp]
  rw [hpath, hsame]

/-- The two ways in which the line that goes home ends. -/
theorem run_cd_cases (hcd : s.Runs "cd" .cd)
    (hdirectory : s.volume.tree.item?.HasDirectory place) :
    (Text.withoutEndSlashes s.home = format place ∧ ∃ history,
        s.run "cd" = (⟨.ok success, "", ""⟩, s.movedTo (format place) history)) ∨
      (Text.withoutEndSlashes s.home ≠ format place ∧ ∃ told history,
        s.run "cd" = (⟨.ok failure, "", told⟩, { s with history })) := by
  have hrun := enters hcd isCommand_cd (expandAlias_cd hcd.plain)
  have hoperand : Utility.cdOperand [] = "~" := rfl
  rw [hoperand] at hrun
  generalize s.run "cd" = result at hrun
  cases hrun with
  | entered hat history =>
    have htrim := withoutEndSlashes_of_directoryAt hplace hroot hat
    rw [directoryAt_home hplace hroot htrim hdirectory] at hat
    cases hat
    exact .inl ⟨htrim, history, rfl⟩
  | refused hat told history =>
    refine .inr ⟨fun htrim => ?_, told, history, rfl⟩
    rw [directoryAt_home hplace hroot htrim hdirectory] at hat
    cases hat

end Home

/-- The session after the line that goes home. -/
def goneHome (s : Session) : Session := (s.run "cd").2

/-- From a session one can go home, to a place, and on from there. -/
structure GoesHome (s : Session) (place : Segments) : Prop where
  succeeds : (s.run "cd").1 = ⟨.ok success, "", ""⟩
  leads : resolve s.goneHome.cwd "/" = place
  /-- The prompt shows a tilde there. -/
  prompt : s.goneHome.prompt = s.promptFor "~"
  again : s.goneHome.Runs "cd" .cd
  /-- Whatever lines are run then, as long as they leave the working directory and the home
  directory to `cd`: to go to a directory below succeeds, and the prompt shows the way there behind
  the tilde. -/
  below : ∀ s', s.goneHome.ComesTo LeavesDirectories s' → s'.Runs "cd" .cd →
    ∀ line words, Line.IsCommand line "cd" words → s'.expandAlias line = line →
      ∀ q, q ≠ [] → resolve (s'.expandHome (Utility.cdOperand words)) s'.cwd = place ++ q →
        s'.volume.tree.item?.HasDirectory (place ++ q) →
          (s'.run line).1 = ⟨.ok success, "", ""⟩ ∧
            (s'.run line).2.prompt = s'.promptFor ("~/" ++ Text.join "/" q)

/-- Below the home directory the prompt shows the way from there. -/
theorem AtHome.below (h : s.AtHome place) (hroot : place ≠ []) (hcd : s.Runs "cd" .cd)
    (hline : Line.IsCommand line "cd" words) (hplain : s.expandAlias line = line) (hq : q ≠ [])
    (hpath : resolve (s.expandHome (Utility.cdOperand words)) s.cwd = place ++ q)
    (hdirectory : s.volume.tree.item?.HasDirectory (place ++ q)) :
    (s.run line).1 = ⟨.ok success, "", ""⟩ ∧
      (s.run line).2.prompt = s.promptFor ("~/" ++ Text.join "/" q) := by
  obtain ⟨pwd, hpwd, hproper, -⟩ := h.inside
  have hhome : s.home = format place := Environment.nonEmptyOr_format h.home
  have hchanges := changes_only_within_home hproper (Environment.nonEmptyOr_format hpwd)
    (Utility.cdOperand words)
  rw [hpath] at hchanges
  have hcovers : s.HomeCovers (place ++ q) := by
    refine .inr ⟨place, h.proper, ?_, List.prefix_append place q⟩
    rw [hhome, withoutEndSlashes_format h.proper hroot]
  have hchanged := hchanges.changed hdirectory hcovers
  have hrun := enters hcd hline hplain
  generalize s.run line = result at hrun
  cases hrun with
  | @entered target hat history =>
    obtain ⟨rfl, -⟩ := directoryAt_eq_ok hat
    rw [hpath]
    exact ⟨rfl, by rw [prompt_movedTo, displayPath_below hhome h.proper hroot hq]⟩
  | refused hat =>
    rw [changeDirectory_of_error hat] at hchanged
    cases hchanged

/-- A session that is at home is so in the home directory itself. -/
theorem AtHome.movedTo (h : s.AtHome place) (history : List String) :
    (s.movedTo (format place) history).AtHome place :=
  ⟨h.proper, (get?_movedTo (by decide) _ _).trans h.home, place, OrderedMap.get?_set_self _ _ _,
    h.proper, List.prefix_refl place⟩

/-- A session that is at home can go home, if its home directory is there and is not the root. -/
theorem AtHome.goesHome (h : s.AtHome place) (hs : s.Reached) (hroot : place ≠ [])
    (hcd : s.Runs "cd" .cd) (hdirectory : s.volume.tree.item?.HasDirectory place) :
    s.GoesHome place := by
  have hhome : s.home = format place := Environment.nonEmptyOr_format h.home
  have hplace : resolve s.home "/" = place := by rw [hhome, resolve_format h.proper]
  have htrim : Text.withoutEndSlashes s.home = format place := by
    rw [hhome, withoutEndSlashes_format h.proper hroot]
  rcases run_cd_cases hplace hroot hcd hdirectory with ⟨-, history, hrun⟩ | ⟨hno, -⟩
  · have hgone : s.goneHome = s.movedTo (format place) history := by rw [goneHome, hrun]
    refine ⟨?_, ?_, ?_, ?_, ?_⟩
    · rw [hrun]
    · rw [hgone, cwd_movedTo, resolve_format h.proper]
    · rw [hgone, prompt_movedTo, displayPath_home hhome]
    · rw [hgone]
      exact hcd.movedTo _ _
    · intro s' hlines hcd' line words hline hplain q hq hpath hbelow
      have hgoneHome : s.goneHome.AtHome place := by
        rw [hgone]
        exact h.movedTo history
      exact (hgoneHome.comesTo (hs.run "cd") hlines).below hroot hcd' hline hplain hq hpath hbelow
  · exact absurd htrim hno

/-! ## After a boot -/

section Boot

variable {b : Boot} {clock : Int} {storage : Storage}

/-- What the prompt says of the user and the host after a boot. -/
theorem promptFor_of_boot {registry : Registry} (hs : (b.run registry clock storage).1 = .ok s)
    (shown : String) :
    s.promptFor shown = b.config.user ++ "@" ++ b.config.hostname ++ ":" ++ shown ++ "$ " := by
  have huser : s.env.vars.get? "USER" = some b.config.user :=
    Boot.get?_of_run hs (by simp [Config.startVariables])
  have hhost : s.env.vars.get? "HOSTNAME" = some b.config.hostname :=
    Boot.get?_of_run hs (by simp [Config.startVariables])
  rw [promptFor, OrderedMap.getD, OrderedMap.getD, huser, hhost]
  rfl

/-- A boot starts in the home directory of its settings. -/
theorem home_of_boot {registry : Registry} (hs : (b.run registry clock storage).1 = .ok s)
    (hne : b.config.home ≠ "") : s.home = b.config.home ∧ s.cwd = b.config.home := by
  have hhome : s.env.get? "HOME" = some b.config.home :=
    Boot.get?_of_run hs (by simp [Config.startVariables])
  have hpwd : s.env.get? "PWD" = some b.config.home :=
    Boot.get?_of_run hs (by simp [Config.startVariables])
  exact ⟨Environment.nonEmptyOr_of_get? hhome fun he => absurd he hne,
    Environment.nonEmptyOr_of_get? hpwd fun he => absurd he hne⟩

/-- What becomes of going home after a boot, by how the home directory is spelled in the
settings. -/
structure ReturnsBySpelling (c : Config) (s : Session) (place : Segments) : Prop where
  /-- It succeeds just if the home directory is, without the slashes at its end, the path of the
  place. -/
  succeeds_iff : (s.run "cd").1.code = .ok success ↔ Text.withoutEndSlashes c.home = format place
  /-- In any case the session is there then. -/
  leads : resolve s.goneHome.cwd "/" = place
  /-- The prompt shows a tilde then if there are no such slashes, else the path of the place. -/
  prompt : Text.withoutEndSlashes c.home = format place →
    s.goneHome.prompt = c.user ++ "@" ++ c.hostname ++ ":" ++
      (if c.home = format place then "~" else format place) ++ "$ "
  /-- So all is as it should be just if the home directory is the path of the place. -/
  goesHome_iff : s.GoesHome place ↔ c.home = format place

/-- Whether a session returns is told by the spelling of its home. -/
theorem returnsBySpelling (hs : (b.run builtIns clock storage).1 = .ok s)
    (hroot : resolve b.config.home "/" ≠ []) (hcd : s.Runs "cd" .cd) :
    ReturnsBySpelling b.config s (resolve b.config.home "/") := by
  have hne : b.config.home ≠ "" := by
    intro hempty
    rw [hempty] at hroot
    exact hroot rfl
  have hdirectory := Boot.hasDirectory_home hs
  have hproper := proper_resolve_root b.config.home
  have hathome := fun hhome => (atHome_of_boot (b := b) hhome hs).goesHome (.boot hs) hroot hcd
    hdirectory
  have hprompt := promptFor_of_boot hs
  obtain ⟨hhome, hcwd⟩ := home_of_boot hs hne
  rw [← hhome] at hroot hdirectory hproper hathome ⊢
  have hcases := run_cd_cases rfl hroot hcd hdirectory
  generalize hplace : resolve s.home "/" = place at hroot hproper hathome hcases ⊢
  rcases hcases with ⟨htrim, history, hrun⟩ | ⟨htrim, told, history, hrun⟩
  · have hgone : s.goneHome = s.movedTo (format place) history := by rw [goneHome, hrun]
    have hshown : s.goneHome.prompt =
        s.promptFor (if s.home = format place then "~" else format place) := by
      rw [hgone, prompt_movedTo]
      split
      · next hsame => rw [displayPath_home hsame]
      · next hother => rw [displayPath_of_slashes htrim hother]
    refine ⟨?_, ?_, fun _ => ?_, fun hgoes => ?_, fun hsame => hathome (hhome.trans hsame)⟩
    · rw [hrun, ← hhome]
      exact iff_of_true rfl htrim
    · rw [hgone, cwd_movedTo, resolve_format hproper]
    · rw [hshown, hprompt, hhome]
    · -- a path from the root is no tilde
      by_contra hother
      rw [← hhome] at hother
      rw [if_neg hother] at hshown
      have htilde := promptFor_injective (hshown.symm.trans hgoes.prompt)
      have hslash := congrArg String.toList htilde
      rw [toList_format] at hslash
      cases hslash
  · have hfails : (s.run "cd").1.code ≠ .ok success := by
      rw [hrun]
      exact fun he => absurd (Except.ok.inj he) (by decide)
    refine ⟨?_, ?_, fun hsame => ?_, fun hgoes => ?_, fun hsame => hathome (hhome.trans hsame)⟩
    · rw [← hhome]
      exact iff_of_false hfails htrim
    · have hstays : s.goneHome.cwd = s.cwd := by rw [goneHome, hrun]; rfl
      rw [hstays, hcwd, ← hhome, hplace]
    · rw [← hhome] at hsame
      exact absurd hsame htrim
    · exact absurd (congrArg Outcome.code hgoes.succeeds) hfails

/-- The place of the unit file of `cd`. -/
def cdUnit (c : Config) : Segments := resolve c.bin "/" ++ ["cd" ++ Command.unitSuffix]

/-- After a boot without a record `cd` can be run just if no directory on the way to the home
directory stands where its unit file should be; else it is not found. -/
theorem runs_cd_of_fresh (hs : (b.run builtIns clock storage).1 = .ok s)
    (hfresh : b.record storage = .ok none) :
    (s.Runs "cd" .cd ↔ ¬ cdUnit b.config <+: resolve b.config.home "/") ∧
      (cdUnit b.config <+: resolve b.config.home "/" → (s.run "cd").1.code = .ok unknown) := by
  have hbuiltIn : builtIns.get? "cd" = some ⟨"cd", "Change the working directory", .cd⟩ := by
    decide +kernel
  obtain ⟨hfree, hinway⟩ := Boot.runs_unless_in_way hs hfresh hbuiltIn (by decide +kernel)
  refine ⟨⟨fun hcd hway => ?_, hfree⟩, fun hway => ?_⟩
  · obtain ⟨e, he⟩ := hinway hway
    obtain ⟨c, hload, -⟩ := hcd.loads
    rw [he] at hload
    cases hload
  · obtain ⟨e, he⟩ := hinway hway
    have hplain : s.aliases.get? "cd" = none := by
      rw [Boot.aliases_of_run hs]
      decide +kernel
    exact code_of_missing isCommand_cd (expandAlias_cd hplain) (fun _ => UnitError.noConfusion) he

/-- Let a boot with the built-in commands succeed, whatever the settings are and wherever the tree
comes from, as long as the home directory is not the root. If `cd` can be run, it goes home by how
the home directory is spelled. Without a record it can be run, unless a directory on the way to the
home directory stands where its unit file should be; then it is not found. -/
theorem goes_home_by_spelling (hs : (b.run builtIns clock storage).1 = .ok s)
    (hroot : resolve b.config.home "/" ≠ []) :
    (s.Runs "cd" .cd → ReturnsBySpelling b.config s (resolve b.config.home "/")) ∧
      (b.record storage = .ok none →
        (s.Runs "cd" .cd ↔ ¬ cdUnit b.config <+: resolve b.config.home "/") ∧
          (cdUnit b.config <+: resolve b.config.home "/" → (s.run "cd").1.code = .ok unknown)) :=
  ⟨returnsBySpelling hs hroot, runs_cd_of_fresh hs⟩

/-- After the usual boot the session can go home, and the prompt shows a tilde there. -/
theorem goes_home_usually :
    ∃ s : Session, Boot.usual = .ok s ∧ s.Runs "cd" .cd ∧ s.GoesHome ["home", "guest"] ∧
      s.goneHome.prompt = "guest@py-sh:~$ " := by
  obtain ⟨s, hs⟩ := Boot.exists_usual
  have hspelled : Config.usual.home = format ["home", "guest"] := by decide +kernel
  have hplace : resolve Config.usual.home "/" = ["home", "guest"] := by decide +kernel
  have hfree : ¬ cdUnit Config.usual <+: ["home", "guest"] := by decide +kernel
  obtain ⟨hreturns, hfresh⟩ :=
    goes_home_by_spelling (b := Boot.start Config.usual (.memory 0)) hs (by decide +kernel)
  have hrecord : (Boot.start Config.usual (.memory 0)).record ⟨default, [⟨none, 0, []⟩]⟩ =
      .ok none := rfl
  have hcd := (hfresh hrecord).1.mpr (by rw [← hplace] at hfree; exact hfree)
  have hgoes := (hreturns hcd).goesHome_iff.mpr (by rw [← hplace] at hspelled; exact hspelled)
  rw [Boot.start, hplace] at hgoes
  exact ⟨s, hs, hcd, hgoes, by rw [hgoes.prompt, promptFor_of_boot hs]; rfl⟩

/-- A boot whose home directory has a slash at its end. -/
def slashedBoot : Boot :=
  Boot.start (Config.make Config.usualUser Config.usualHostname "/home/ada/" "" none none)
    (.memory 0)

/-- With a slash at the end of the home directory, to go home succeeds and leads there, but the
prompt shows no tilde. -/
theorem prompt_without_tilde :
    ∃ s : Session, (slashedBoot.run builtIns 0 ⟨default, [⟨none, 0, []⟩]⟩).1 = .ok s ∧
      resolve slashedBoot.config.home "/" = ["home", "ada"] ∧ (s.run "cd").1.code = .ok success ∧
        resolve s.goneHome.cwd "/" = ["home", "ada"] ∧
          s.goneHome.prompt = "guest@py-sh:/home/ada$ " := by
  have hs : (slashedBoot.run builtIns 0 ⟨default, [⟨none, 0, []⟩]⟩).1 =
      .ok (slashedBoot.roomySession 0 ⟨default, [⟨none, 0, []⟩]⟩ none
        "Created default filesystem" 6) :=
    Boot.run_of_makesRoom rfl rfl (by decide +kernel)
  have hplace : resolve slashedBoot.config.home "/" = ["home", "ada"] := by decide +kernel
  have hcd := (runs_cd_of_fresh hs rfl).1.mpr (by decide +kernel)
  have hreturns := returnsBySpelling hs (by decide +kernel) hcd
  rw [hplace] at hreturns
  have htrim : Text.withoutEndSlashes slashedBoot.config.home = format ["home", "ada"] := by
    decide +kernel
  refine ⟨_, hs, hplace, hreturns.succeeds_iff.mpr htrim, hreturns.leads, ?_⟩
  rw [hreturns.prompt htrim]
  decide +kernel

end Boot

end Session

end TreeShell
