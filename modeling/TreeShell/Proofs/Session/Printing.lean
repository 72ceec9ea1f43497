import TreeShell.Proofs.Line.Literal
import TreeShell.Proofs.Session.Lines
import TreeShell.Proofs.Stopping
import TreeShell.Proofs.Volume.Writing

/-!
# Texts printed and shown

A text that is quoted as a word is literal from the line to the file and back. A line that prints
texts into a file exits with success and leaves just these texts there, with blanks between them, in
place of what the file held or behind it; a line that shows the file prints what it holds.
-/

namespace TreeShell

open TreeShell.Action TreeShell.Path

/-! ## Commands that print -/

namespace Action

variable {j j' : Job}

theorem result_write {stream : Nat} {text : String} (h : j.write stream text = (.ok (), j')) :
    result (write stream text) j = (.ok (), j') := by
  rw [write, result_allow, h]

/-- To print the arguments without a line feed is to write them with blanks between them. -/
theorem result_echo {ctx : Context} (hn : ctx.flag ["n"] = true) (he : ctx.flag ["e"] = false)
    (h : j.write ctx.ends.output (Text.join " " ctx.arguments) = (.ok (), j')) :
    result (Utility.echo ctx) j = (.ok success, j') := by
  simp only [Utility.echo, hn, he, if_true, Bool.false_eq_true, if_false]
  rw [result_bind, put, result_write h]
  rfl

/-- To print one file is to write what it holds. -/
theorem result_cat {ctx : Context} {path : String} {content : Content}
    (ha : ctx.arguments = [path]) (hdash : path ≠ "-")
    (hc : j.session.volume.tree.content path ctx.cwd = .ok content)
    (h : j.write ctx.ends.output content.plain = (.ok (), j')) :
    result (Utility.cat ctx) j = (.ok success, j') := by
  have hask : result (ask fun t => t.content path ctx.cwd) j = (.ok content, j) := by
    rw [result_ask, hc]
  have hprint : result (do put ctx (← ask fun t => t.content path ctx.cwd).plain) j =
      (.ok (), j') := by
    rw [result_bind, hask]
    exact result_write h
  have hoperand : result (Utility.catOperand ctx path) j = (.ok true, j') := by
    rw [Utility.catOperand, if_neg hdash, orComplain, result_bind, result_attempt, hprint]
    rfl
  rw [Utility.cat, ha]
  change result (each (Utility.catOperand ctx) [path]) j = _
  rw [each, result_bind, hoperand]
  rfl

end Action

/-! ## Lines of one stage -/

/-- What a unit file gives is told by what it holds. -/
theorem Registry.load_eq_ok_of_content {r : Registry} {t t' : Tree} {name bin : String}
    {c : Command}
    (h : ∀ content, t.content (Command.unitPath name bin) "/" = .ok content →
      t'.content (Command.unitPath name bin) "/" = .ok content)
    (hload : r.load t name bin = .ok c) : r.load t' name bin = .ok c := by
  unfold load at hload ⊢
  split at hload
  · cases hload
  · next hname =>
    rw [if_neg hname]
    dsimp only at hload ⊢
    cases hc : t.content (Command.unitPath name bin) "/" with
    | error e =>
      rw [hc] at hload
      cases hload
    | ok content =>
      rw [h content hc]
      rw [hc] at hload
      exact hload

/-- A unit file gives what it gave when a file elsewhere has been written. -/
theorem Volume.Puts.load {v v' : Volume} {place : Segments} {content : Content}
    (h : v.Puts place content v') {r : Registry} {name bin : String} {c : Command}
    (hne : place ≠ resolve (Command.unitPath name bin) "/")
    (hload : r.load v.tree name bin = .ok c) : r.load v'.tree name bin = .ok c := by
  refine Registry.load_eq_ok_of_content (fun content hc => ?_) hload
  obtain ⟨a, ha⟩ := Tree.content_eq_ok_iff.mp hc
  refine Tree.content_eq_ok_iff.mpr ⟨a, ?_⟩
  rw [h.elsewhere _ hne.symm]
  exact ha

/-- A stage with one redirection, of its output to a file, is ready when the file has been
opened. -/
theorem Stage.resolve_of_output {command cwd path : String} {words : List String}
    {defaults : Ends} {op : Operator} {w : Wiring} {v' : Volume}
    (hparts : Parts.ofStage command = .ok ⟨words, [⟨1, op, .file path⟩]⟩)
    (hop : op = .write ∨ op = .append)
    (hv : w.volume.perform cwd (.write path (.string "") (op = .append)) = (.ok (), v')) :
    Stage.resolve command defaults cwd w =
      (.ok ⟨words.head?, words.tail, ⟨defaults.input, w.pool.next, defaults.errors⟩, [1]⟩,
        ({ w with volume := v' }.add (.file path cwd)).1) := by
  have hopen : Redirection.openFile ⟨1, op, .file path⟩ path cwd w = _ :=
    Redirection.openFile_of_output hop
  rw [hv] at hopen
  have hconnect : Redirection.connect ⟨1, op, .file path⟩ (Table.ofEnds defaults) cwd w =
      (.ok w.pool.next, ({ w with volume := v' }.add (.file path cwd)).1) := by
    refine Eq.trans ?_ hopen
    rcases hop with rfl | rfl
    · rfl
    · rfl
  rw [Stage.resolve, hparts]
  dsimp only
  rw [Redirection.connectAll, hconnect]
  rfl

namespace Job

variable {j j' : Job} {command name : String} {defaults : Ends} {stage : Stage} {w : Wiring}
  {c : Command} {code : Int}

/-- A stage that is made ready, whose command is found and exits with a code. -/
theorem runStage_of_result
    (hready : Stage.resolve command defaults j.session.cwd j.wiring = (.ok stage, w))
    (hname : stage.name = some name)
    (hload : j.session.registry.load w.volume.tree name j.session.bin = .ok c)
    (hresult : result (c.program.run ((j.rewire w).contextOf stage j.session.cwd)) (j.rewire w) =
      (.ok code, j')) :
    j.runStage command defaults = (.ok (code, stage.outputRedirected), j') := by
  have hcommand : (j.rewire w).runCommand name stage j.session.cwd defaults.errors =
      (.ok code, j') := by
    have hfound : (j.rewire w).session.registry.load (j.rewire w).session.volume.tree name
        (j.rewire w).session.bin = .ok c := hload
    rw [runCommand_of_ok hfound]
    exact runProgram_of_ok hresult
  rw [runStage_of_ready hready hname, hcommand]
  rfl

end Job

/-- A line is one stage without redirections: a command with some words behind its name. -/
structure Line.IsCommand (line name : String) (words : List String) : Prop where
  one : Line.stages (Text.trimmed line) = [line]
  parts : Parts.ofStage line = .ok ⟨name :: words, []⟩

namespace Session

/-- The streams that a line of one stage starts with, where output and errors are kept apart. -/
def stagePool : Pool :=
  ⟨[⟨.kept, ""⟩, ⟨.kept, ""⟩, ⟨.stream 0, ""⟩, ⟨.stream 1, ""⟩, ⟨.kept, ""⟩], []⟩

/-- The descriptors of that stage. -/
def stageEnds : Ends := ⟨4, 2, 3⟩

variable {s : Session} {line : String} {code : Int} {redirected : Bool} {j' : Job}

/-- To run a line that is one stage, whose first word is no alias, is to run that stage. -/
theorem run_of_one (hone : Line.stages (Text.trimmed line) = [line])
    (hplain : s.expandAlias line = line)
    (hrun : (⟨s.remember (Text.trimmed line), stagePool⟩ : Job).runStage line stageEnds =
      (.ok (code, redirected), j')) :
    s.run line = (⟨.ok code, (j'.pool.read 0).1, (j'.pool.read 1).1⟩, j'.session) := by
  have hon : s.runOn line .apart = (.ok code, j') := by
    rw [runOn_eq, hone, Job.runStages_last, Job.lastVisit, Visit.run]
    dsimp only
    rw [firstJob, expandAlias_remember, hplain]
    have hstart : ((⟨s.remember (Text.trimmed line), ((Display.apart.pool.add
        (.stream Display.apart.output)).1.add (.stream Display.apart.errors)).1⟩ :
          Job).addKeeping "") = (⟨s.remember (Text.trimmed line), stagePool⟩, 4) := rfl
    rw [hstart]
    have hends : (⟨4, Display.apart.pool.next,
        (Display.apart.pool.add (.stream Display.apart.output)).1.next⟩ : Ends) = stageEnds := rfl
    rw [hends, hrun]
  rw [run_eq, hon]
  rfl

variable {name : String} {words : List String} {c : Command}

/-- The stage that is made ready for a line of one command. -/
def commandStage (name : String) (words : List String) : Stage := ⟨some name, words, stageEnds, []⟩

theorem resolve_of_isCommand (h : Line.IsCommand line name words) (cwd : String) (w : Wiring) :
    Stage.resolve line stageEnds cwd w = (.ok (commandStage name words), w) := by
  rw [Stage.resolve, h.parts]
  rfl

/-- To run a line of one command is to run its program, if the command is found. -/
theorem run_of_isCommand (h : Line.IsCommand line name words) (hplain : s.expandAlias line = line)
    (hload : s.registry.load s.volume.tree name s.bin = .ok c) :
    ∃ history, ∀ {code : Int} {j' : Job},
      result (c.program.run ((⟨{ s with history }, stagePool⟩ : Job).contextOf
          (commandStage name words) s.cwd)) ⟨{ s with history }, stagePool⟩ = (.ok code, j') →
        s.run line = (⟨.ok code, (j'.pool.read 0).1, (j'.pool.read 1).1⟩, j'.session) := by
  obtain ⟨history, hremember⟩ := s.exists_remember (Text.trimmed line)
  refine ⟨history, fun {code j'} hresult => ?_⟩
  have hrun := Job.runStage_of_result (j := ⟨{ s with history }, stagePool⟩)
    (resolve_of_isCommand h s.cwd _) rfl hload hresult
  exact run_of_one h.one hplain (by rw [hremember]; exact hrun)

/-- A word runs a program: it is no alias, and its unit file names a command that is the program. -/
structure Runs (s : Session) (name : String) (p : Program) : Prop where
  plain : s.aliases.get? name = none
  loads : ∃ c, s.registry.load s.volume.tree name s.bin = .ok c ∧ c.program = p

/-- A path leads to a place where a file is or can be made. -/
structure Writable (s : Session) (path : String) : Prop where
  parent : s.volume.tree.item?.HasParent (resolve path s.cwd)
  file : ¬ s.volume.tree.item?.HasDirectory (resolve path s.cwd)

theorem runs_iff {s : Session} {name : String} {p : Program} :
    s.Runs name p ↔ s.aliases.get? name = none ∧
      (s.registry.load s.volume.tree name s.bin).toOption.any (·.program == p) = true := by
  cases hload : s.registry.load s.volume.tree name s.bin with
  | error e =>
    refine iff_of_false (fun h => ?_) (by simp [Except.toOption])
    obtain ⟨c, hc, -⟩ := h.loads
    rw [hload] at hc
    cases hc
  | ok c =>
    constructor
    · rintro ⟨hplain, c', hc, hp⟩
      rw [hload] at hc
      cases hc
      exact ⟨hplain, by simp [Except.toOption, hp]⟩
    · rintro ⟨hplain, hp⟩
      exact ⟨hplain, c, hload, by simpa [Except.toOption] using hp⟩

instance (s : Session) (name : String) (p : Program) : Decidable (s.Runs name p) :=
  decidable_of_iff _ runs_iff.symm

theorem writable_iff {s : Session} {path : String} :
    s.Writable path ↔
      (resolve path s.cwd ≠ [] ∧
        (s.volume.tree.item? (resolve path s.cwd).dropLast).any Item.isDirectory = true) ∧
        ¬ (s.volume.tree.item? (resolve path s.cwd)).any Item.isDirectory = true := by
  rw [← PathMap.hasDirectory_iff_any, ← PathMap.hasDirectory_iff_any]
  exact ⟨fun h => ⟨h.parent, h.file⟩, fun h => ⟨h.1, h.2⟩⟩

instance (s : Session) (path : String) : Decidable (s.Writable path) :=
  decidable_of_iff _ writable_iff.symm

/-- What a file holds that texts are put behind: nothing, if there is no file. -/
def heldText (s : Session) (path : String) : Content :=
  (s.volume.tree.item?.content? (resolve path s.cwd)).getD (.string "")

theorem expandAlias_of_firstWord {word rest} (h : Text.firstWord line.toList = some (word, rest))
    (hplain : s.aliases.get? (String.ofList word) = none) : s.expandAlias line = line := by
  rw [expandAlias, h]
  dsimp only
  rw [hplain]

variable {append : Bool} {texts : List String} {path old : String}

/-- What a file holds after it has been opened to be written. -/
theorem written_of_heldText
    (hold : if append then s.heldText path = .string old else old = "") :
    PathMap.written (.string "") append (s.volume.tree.item? (resolve path s.cwd)) =
      .ok (.string old) := by
  rw [PathMap.written_eq, ← PathMap.content?]
  cases append with
  | false =>
    obtain rfl : old = "" := by simpa using hold
    rfl
  | true =>
    have hheld : s.heldText path = .string old := by simpa using hold
    unfold heldText at hheld
    cases hc : s.volume.tree.item?.content? (resolve path s.cwd) with
    | none =>
      rw [hc] at hheld
      rw [← hheld]
      rfl
    | some content =>
      rw [hc] at hheld
      obtain rfl : content = .string old := hheld
      simp [Json.join]

/-- A line that prints texts into a file exits with success, prints nothing elsewhere, and leaves
the texts there, with blanks between them. -/
theorem run_printLine (h : s.volume.tree.WellFormed) (hecho : s.Runs "echo" .echo)
    (hpath : s.Writable path)
    (happart : resolve path s.cwd ≠ resolve (Command.unitPath "echo" s.bin) "/")
    (hold : if append then s.heldText path = .string old else old = "") (texts : List String) :
    ∃ s', s.run (Line.printLine append texts path) = (⟨.ok success, "", ""⟩, s') ∧
      s.volume.Puts (resolve path s.cwd) (.string (old ++ Text.join " " texts)) s'.volume ∧
        s'.aliases = s.aliases ∧ s'.registry = s.registry ∧ s'.env = s.env := by
  obtain ⟨c, hload, hc⟩ := hecho.loads
  obtain ⟨history, hremember⟩ := s.exists_remember (Text.trimmed (Line.printLine append texts path))
  obtain ⟨v₁, hopen, hputs₁⟩ := Volume.exists_puts h hpath.parent hpath.file
    (written_of_heldText hold)
  obtain ⟨v₂, hwrite, hputs₂⟩ := Volume.perform_append_text hputs₁.wellFormed hputs₁.content
    (Text.join " " texts)
  let j : Job := ⟨{ s with history }, stagePool⟩
  let w : Wiring := ({ j.wiring with volume := v₁ }.add (.file path s.cwd)).1
  have hready : Stage.resolve (Line.printLine append texts path) stageEnds s.cwd j.wiring =
      (.ok ⟨some "echo", "-n" :: "--" :: texts, ⟨4, 5, 3⟩, [1]⟩, w) := by
    refine Stage.resolve_of_output (Line.parts_printLine append texts path) ?_ ?_
    · cases append
      · exact Or.inl rfl
      · exact Or.inr rfl
    · cases append
      · exact hopen
      · exact hopen
  have hend : (j.rewire w).pool.endOf 5 = .file path s.cwd :=
    (Pool.endOf_of_stream (s := ⟨.file path s.cwd, ""⟩) rfl).2 _ _ rfl
  have hput : (j.rewire w).write 5 (Text.join " " texts) =
      (.ok (), ⟨{ s with volume := v₂, history }, w.pool⟩) := by
    have hperform : (j.rewire w).session.volume.perform s.cwd
        (.write path (.string (Text.join " " texts)) true) = (.ok (), v₂) := hwrite
    rw [Job.write_of_file hend, Job.edit, Job.mapSession, hperform]
    rfl
  have hresult : result (c.program.run ((j.rewire w).contextOf
      ⟨some "echo", "-n" :: "--" :: texts, ⟨4, 5, 3⟩, [1]⟩ s.cwd)) (j.rewire w) =
      (.ok success, ⟨{ s with volume := v₂, history }, w.pool⟩) := by
    rw [hc]
    exact result_echo rfl rfl hput
  have hrun := Job.runStage_of_result (j := j) hready rfl (hputs₁.load happart hload) hresult
  obtain ⟨rest, hfirst⟩ := Line.firstWord_printLine append texts path
  have hplain := expandAlias_of_firstWord hfirst hecho.plain
  have hline := run_of_one (Line.stages_printLine append texts path) hplain
    (by rw [hremember]; exact hrun)
  exact ⟨_, hline, hputs₁.trans hputs₂, rfl, rfl, rfl⟩

/-- A line that shows a file exits with success, and prints what the file holds. -/
theorem run_showLine (hcat : s.Runs "cat" .cat) (hdash : path ≠ "-") {content : Content}
    (hcontent : s.volume.tree.item?.content? (resolve path s.cwd) = some content) :
    (s.run (Line.showLine path)).1 = ⟨.ok success, content.plain, ""⟩ := by
  obtain ⟨c, hload, hc⟩ := hcat.loads
  obtain ⟨rest, hfirst⟩ := Line.firstWord_showLine path
  have hline : Line.IsCommand (Line.showLine path) "cat" ["--", path] :=
    ⟨Line.stages_showLine path, Line.parts_showLine path⟩
  obtain ⟨history, hrun⟩ :=
    run_of_isCommand hline (expandAlias_of_firstWord hfirst hcat.plain) hload
  let j : Job := ⟨{ s with history }, stagePool⟩
  have hend : j.pool.endOf 2 = .keeper 0 := rfl
  have hput : j.write 2 content.plain = (.ok (), { j with pool := j.pool.write 2 content.plain }) :=
    Job.write_of_not_file fun path cwd h => by cases hend.symm.trans h
  have hfile : j.session.volume.tree.content path s.cwd = .ok content := by
    obtain ⟨a, ha⟩ := PathMap.content?_eq_some_iff.mp hcontent
    exact Tree.content_eq_ok_iff.mpr ⟨a, ha⟩
  have hresult : result (c.program.run (j.contextOf (commandStage "cat" ["--", path]) s.cwd)) j =
      (.ok success, { j with pool := j.pool.write 2 content.plain }) := by
    rw [hc]
    exact result_cat rfl hdash hfile hput
  rw [hrun hresult]
  have hshown : ((j.pool.write 2 content.plain).read 0).1 = "" ++ content.plain := rfl
  rw [hshown, String.empty_append]
  rfl

/-! ## Printed, then shown -/

/-- Whatever texts are printed into a file, from whatever state: the line exits with success and
prints nothing, the file holds the texts with blanks between them, behind what it held if they are
put there and that is a text, and the line that shows it exits with success and prints just that. -/
theorem shows_what_is_printed (h : s.volume.tree.WellFormed) (hecho : s.Runs "echo" .echo)
    (hcat : s.Runs "cat" .cat) (hpath : s.Writable path) (hdash : path ≠ "-")
    (happart : ∀ name ∈ ["echo", "cat"],
      resolve path s.cwd ≠ resolve (Command.unitPath name s.bin) "/")
    (hold : if append then s.heldText path = .string old else old = "") (texts : List String) :
    ∃ s', s.run (Line.printLine append texts path) = (⟨.ok success, "", ""⟩, s') ∧
      s'.volume.tree.item?.content? (resolve path s.cwd) =
        some (.string (old ++ Text.join " " texts)) ∧
      ∀ now, ((s'.atTime now).run (Line.showLine path)).1 =
        ⟨.ok success, old ++ Text.join " " texts, ""⟩ := by
  obtain ⟨s', hrun, hputs, haliases, hregistry, henv⟩ :=
    run_printLine h hecho hpath (happart "echo" (by simp)) hold texts
  refine ⟨s', hrun, hputs.content, fun now => ?_⟩
  have hcat' : (s'.atTime now).Runs "cat" .cat := by
    obtain ⟨c, hload, hc⟩ := hcat.loads
    refine ⟨by rw [← hcat.plain, ← haliases]; rfl, c, ?_, hc⟩
    have hload' := hputs.load (happart "cat" (by simp)) hload
    rw [← hregistry, bin, ← henv] at hload'
    exact hload'
  have hcwd : (s'.atTime now).cwd = s.cwd := by
    change s'.cwd = s.cwd
    rw [cwd, henv, ← cwd]
  have hheld : (s'.atTime now).volume.tree.item?.content? (resolve path (s'.atTime now).cwd) =
      some (.string (old ++ Text.join " " texts)) := by
    rw [hcwd]
    exact hputs.content
  exact run_showLine hcat' hdash hheld

/-- Texts that would be pipes, quotes, options, redirections or nothing if they were not quoted. -/
def trickyTexts : List String :=
  ["a|b", "it's", "-e", "", "> x", "1>&2", "\"two\"", "back\\n", "line\nline", "  "]

/-- After the usual boot, such texts are printed into a file with such a name, and shown. -/
theorem shows_tricky_texts :
    ∃ s s' : Session, s.Reached ∧
      s.run (Line.printLine true trickyTexts "-n 'f|g' >") = (⟨.ok success, "", ""⟩, s') ∧
        s'.volume.tree.item?.content? ["home", "guest", "-n 'f|g' >"] =
          some (.string (Text.join " " trickyTexts)) ∧
        ∀ now, ((s'.atTime now).run (Line.showLine "-n 'f|g' >")).1 =
          ⟨.ok success, Text.join " " trickyTexts, ""⟩ := by
  let s : Session := Boot.usualSession
  obtain ⟨⟨hecho, hcat, hpath⟩, happart, hplace, hfree⟩ :
      (s.Runs "echo" .echo ∧ s.Runs "cat" .cat ∧ s.Writable "-n 'f|g' >") ∧
        (∀ name ∈ ["echo", "cat"], resolve "-n 'f|g' >" s.cwd ≠
          resolve (Command.unitPath name s.bin) "/") ∧
          resolve "-n 'f|g' >" s.cwd = ["home", "guest", "-n 'f|g' >"] ∧
            (s.volume.tree.item? ["home", "guest", "-n 'f|g' >"]).isNone := by
    decide +kernel
  have hreached : s.Reached := .boot Boot.usual_eq
  have hold : if true then s.heldText "-n 'f|g' >" = .string "" else ("" : String) = "" := by
    rw [if_pos rfl, heldText, hplace, PathMap.content?, Option.isNone_iff_eq_none.mp hfree]
    rfl
  obtain ⟨s', hprint, hheld, hshow⟩ := shows_what_is_printed hreached.sound.wellFormed hecho hcat
    hpath (by decide) happart hold trickyTexts
  rw [hplace] at hheld
  exact ⟨s, s', hreached, hprint, hheld, hshow⟩

/-- What a record has for a file with a list in it. -/
def listEntry : Json := .object [("type", .string "file"), ("content", .array [.int 1])]

/-- The session after a boot from a record with such a file. -/
def listed : Session :=
  (Boot.start Config.usual (.memory 0)).roomySession 0 (Boot.storing "f" listEntry)
    (some (.storage, .object
      [("type", .string "directory"), ("children", .object [("f", listEntry)])]))
    "Loaded filesystem from storage" 6

theorem reached_listed : listed.Reached :=
  .boot (Boot.run_of_makesRoom rfl rfl (by decide +kernel))

/-- A file that a record has a list for takes no text behind it: a line that would put one there
breaks off, although there is a regular file at the path. -/
theorem nothing_printed_behind_list :
    ∃ s : Session, s.Reached ∧ (s.Runs "echo" .echo ∧ s.Runs "cat" .cat ∧ s.Writable "/f") ∧
      (∀ name ∈ ["echo", "cat"], resolve "/f" s.cwd ≠ resolve (Command.unitPath name s.bin) "/") ∧
        (s.run (Line.printLine true ["x"] "/f")).1.code =
          .error (.content (.noJoin "list" "str")) := by
  have hfacts : (listed.Runs "echo" .echo ∧ listed.Runs "cat" .cat ∧ listed.Writable "/f") ∧
      (∀ name ∈ ["echo", "cat"], resolve "/f" listed.cwd ≠
        resolve (Command.unitPath name listed.bin) "/") ∧
      (match (listed.run (Line.printLine true ["x"] "/f")).1.code with
        | .error (.content e) => e == .noJoin "list" "str"
        | .error (.numeral _) => false
        | .ok _ => false) = true := by
    decide +kernel
  obtain ⟨hready, happart, hcode⟩ := hfacts
  refine ⟨listed, reached_listed, hready, happart, ?_⟩
  split at hcode
  · next e he => rw [he, eq_of_beq hcode]
  · cases hcode
  · cases hcode

end Session

end TreeShell
