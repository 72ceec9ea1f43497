import TreeShell.Proofs.Line.Commands
import TreeShell.Proofs.Session.Filters

/-!
# One file in three ways

A file gets to a command as its operand, by a redirection of its input, or through a pipe behind a
command that shows it. Commands that show, filter or count a text come to the same in all three
ways, whatever the text; only the name behind counts is missing where there is none.
-/

namespace TreeShell

open TreeShell.Action TreeShell.Path

namespace Utility

variable {ctx : Context} {j : Job} {path label text : String} {content : Content}

/-! ## Commands on one file or on the input -/

/-- To take the content of one file prints nothing. -/
theorem prints_contents (name : String)
    (hcontent : j.session.volume.tree.content path ctx.cwd = .ok content) :
    Prints ctx (inputs ctx name [path]) "" (some [(path, content)]) j := by
  refine .of_result ?_
  rw [inputs, if_neg (by simp), contents, result_bind, result_session]
  dsimp only
  rw [hcontent]
  rfl

/-- To print one file prints its content. -/
theorem prints_cat_file (ha : ctx.arguments = [path]) (hdash : path ≠ "-")
    (hcontent : j.session.volume.tree.content path ctx.cwd = .ok content)
    (htakes : j.pool.Takes (j.pool.endOf ctx.ends.output)) :
    Prints ctx (cat ctx) content.plain success j :=
  ⟨_, result_cat ha hdash hcontent (Job.write_of_not_file htakes.ne_file),
    j.pool.prints_write _ htakes _⟩

/-- Without operands the input is printed. -/
theorem prints_cat_input (ha : ctx.arguments = [])
    (hinput : j.pool.heard (.keeper ctx.ends.input) = text)
    (htakes : j.pool.Takes (j.pool.endOf ctx.ends.output)) :
    Prints ctx (cat ctx) text success j := by
  have hread := prints_read ctx j
  rw [hinput] at hread
  have hcopy : Prints ctx (copyInput ctx) text () j :=
    hread.bind_silent htakes fun pool hgrows => prints_put (hgrows.takes_endOf htakes) text
  rw [cat, ha]
  exact hcopy.bind_pure htakes fun _ => rfl

/-- A line of counts, with the name of what was counted behind it, if it has one. -/
def countsLine (counts : List Nat) (label : String) : String :=
  if label = "" then Text.join " " (counts.map toString)
  else Text.join " " (counts.map toString) ++ " " ++ label

/-- To count one text is to print one line. -/
theorem prints_wc (htakes : j.pool.Takes (j.pool.endOf ctx.ends.output))
    (hin : Prints ctx (inputs ctx "wc" ctx.arguments) "" (some [(label, .string text)]) j) :
    Prints ctx (wc ctx) (countsLine (counts ctx text) label ++ "\n") success j := by
  have hjoin : countsLine (counts ctx text) label ++ "\n" =
      String.join ([(label, (.string text : Content))].map fun _ =>
        countsLine (counts ctx text) label ++ "\n") := by
    rw [List.map_cons, List.map_nil, String.join_cons, String.join_nil, String.append_empty]
  rw [wc]
  refine hin.bind_silent htakes fun pool hgrows => ?_
  have htakes' := hgrows.takes_endOf htakes
  refine Prints.bind_pure (a := PUnit.unit) ?_ htakes' fun _ => rfl
  rw [hjoin]
  refine prints_forIn (j := ⟨j.session, pool⟩) htakes' fun c hc pool' hgrows' => ?_
  cases List.mem_singleton.mp hc
  have hcut : result (need (Json.textForCounts (.string text))) ⟨j.session, pool'⟩ =
      (.ok text, ⟨j.session, pool'⟩) := rfl
  refine (Prints.of_result hcut).bind_silent (hgrows'.takes_endOf htakes') fun pool₂ hgrows₂ => ?_
  have htakes₂ := hgrows₂.takes_endOf (hgrows'.takes_endOf htakes')
  exact (prints_putLine htakes₂ _).bind_pure htakes₂ fun _ => rfl

end Utility

open Utility

/-! ## Lines -/

/-- The ways in which a file gets to a command. -/
inductive FileSource where
  | operand
  | redirected
  | piped
  deriving DecidableEq

/-- Words as tokens: each a text, and whether it is quoted. -/
def Token.ofWords (words : List (String × Bool)) : List Token := words.map fun w => .word w.1 w.2

/-- A line by which a command gets a file in some way. The command has some words behind its name
when the file is behind them, and some when it is its input. -/
def FileSource.Reads (name : String) (before alone : List (String × Bool)) (path : String) :
    FileSource → String → Prop
  | .operand, line => Token.Writes (Token.ofWords ((name, false) :: before ++ [(path, true)])) line
  | .redirected, line =>
    Token.Writes (Token.ofWords ((name, false) :: alone) ++ [.operator .read none, .word path true])
      line
  | .piped, line => ∃ first second,
    Token.Writes (Token.ofWords [("cat", false), ("--", false), (path, true)]) first ∧
      Token.Writes (Token.ofWords ((name, false) :: alone)) second ∧
      line = first ++ " | " ++ second

namespace Session

variable {s : Session} {name path line stage output output' text : String} {content : Content}
  {words before alone : List (String × Bool)} {code : Int}

/-- A stage whose first word is no alias is left as it is. -/
theorem expandAlias_of_writes {ts : List Token} (h : Token.Writes (.word name false :: ts) stage)
    (hplain : s.aliases.get? name = none) : s.expandAlias stage = stage := by
  obtain ⟨rest, hfirst⟩ := h.firstWord
  refine expandAlias_of_firstWord hfirst ?_
  rwa [String.ofList_toList]

/-- Words that are not quoted hold no bar. -/
def Barless (words : List (String × Bool)) : Prop := ∀ w ∈ words, w.2 = false → '|' ∉ w.1.toList

/-- Words without bars are tokens without bars. -/
theorem barlessWords_ofWords (h : Barless words) : Token.BarlessWords (Token.ofWords words) := by
  intro text htext
  obtain ⟨w, hw, he⟩ := List.mem_map.mp htext
  obtain ⟨rfl, hquoted⟩ := Token.word.inj he
  exact h w hw hquoted

/-- A stage of words makes of a text what its command does. -/
theorem turns_of_words (hplain : s.aliases.get? name = none)
    (hstage : Token.Writes (Token.ofWords ((name, false) :: words)) stage)
    (hmakes : s.Makes name (words.map Prod.fst) text output code) :
    s.Turns stage text output code := by
  refine hmakes.turns ?_
  have hwords := Token.ofTokens_append_words ((name, false) :: words) []
  rw [List.append_nil] at hwords
  rw [expandAlias_of_writes hstage hplain, Parts.ofStage, hstage.ofStage]
  dsimp only
  rw [Token.ofWords, hwords]
  simp [Parts.ofTokens, Except.map]

/-- A stage of words and a redirection of its input makes of whatever text what its command makes of
the file's. -/
theorem turns_of_redirected (hplain : s.aliases.get? name = none)
    (hstage : Token.Writes (Token.ofWords ((name, false) :: words) ++
      [.operator .read none, .word path true]) stage)
    (hcontent : s.volume.tree.content path s.cwd = .ok content)
    (hmakes : s.Makes name (words.map Prod.fst) content.plain output code) (input : String) :
    s.Turns stage input output code := by
  refine hmakes.turns_read ?_ hcontent input
  have hwords := Token.ofTokens_append_words ((name, false) :: words)
    [.operator .read none, .word path true]
  have hfile : Redirection.ofTokens .read none path true = .ok ⟨0, .read, .file path⟩ := rfl
  rw [expandAlias_of_writes hstage hplain, Parts.ofStage, hstage.ofStage]
  dsimp only
  rw [Token.ofWords, hwords, Parts.ofTokens, hfile]
  simp [Parts.ofTokens, Except.map]

/-- A stage that shows a file prints what it holds. -/
theorem makes_cat_file (hcat : s.Runs "cat" .cat) (hdash : path ≠ "-")
    (hcontent : s.volume.tree.content path s.cwd = .ok content) (input : String) :
    s.Makes "cat" ["--", path] input content.plain success :=
  hcat.makes fun _ _ hvolume hready _ =>
    prints_cat_file rfl hdash (hvolume ▸ hcontent) hready.takes

/-- What a command does with a file that gets to it in one of the ways. -/
theorem run_of_reads (before alone : List (String × Bool)) (hplain : s.aliases.get? name = none)
    (hcat : s.Runs "cat" .cat) (hdash : path ≠ "-")
    (hcontent : s.volume.tree.content path s.cwd = .ok content) (hname : '|' ∉ name.toList)
    (hbefore : Barless before) (halone : Barless alone)
    (hoperand : s.Makes name (before.map Prod.fst ++ [path]) "" output code)
    (hinput : s.Makes name (alone.map Prod.fst) content.plain output' code) (source : FileSource)
    (hline : source.Reads name before alone path line) :
    (s.run line).1 = ⟨.ok code, if source = .operand then output else output', ""⟩ := by
  have hcommand : Barless ((name, false) :: alone) :=
    List.forall_mem_cons.mpr ⟨fun _ => hname, halone⟩
  cases source with
  | operand =>
    have hwords : Barless ((name, false) :: (before ++ [(path, true)])) :=
      List.forall_mem_cons.mpr ⟨fun _ => hname, List.forall_mem_append.mpr
        ⟨hbefore, List.forall_mem_singleton.mpr fun h => by cases h⟩⟩
    have htidy := hline.tidy (List.cons_ne_nil _ _) (barlessWords_ofWords hwords)
    have hmakes : s.Makes name ((before ++ [(path, true)]).map Prod.fst) "" output code := by
      rwa [List.map_append]
    have hturns := turns_of_words hplain hline hmakes
    exact run_of_gives htidy.stages (gives_of_pipes (.last hturns))
  | redirected =>
    have hbar : Token.BarlessWords (Token.ofWords ((name, false) :: alone) ++
        [.operator .read none, .word path true]) :=
      Token.barlessWords_append (barlessWords_ofWords hcommand) fun text h => by simp at h
    have htidy := hline.tidy (List.cons_ne_nil _ _) hbar
    have hturns := turns_of_redirected hplain hline hcontent hinput ""
    exact run_of_gives htidy.stages (gives_of_pipes (.last hturns))
  | piped =>
    obtain ⟨first, second, hfirst, hsecond, rfl⟩ := hline
    have hshow : Barless [("cat", false), ("--", false), (path, true)] := by
      simp [Barless]
    have htidy := hfirst.tidy (List.cons_ne_nil _ _) (barlessWords_ofWords hshow)
    have htidy' := hsecond.tidy (List.cons_ne_nil _ _) (barlessWords_ofWords hcommand)
    have hturns := turns_of_words hcat.plain hfirst (makes_cat_file hcat hdash hcontent "")
    have hturns' := turns_of_words hplain hsecond hinput
    exact run_of_gives (htidy.stages_pair htidy') (gives_of_pipes (.next hturns (.last hturns')))

/-! ## The commands in all three ways -/

/-- Words of options, not quoted. -/
def optionWords (letters : List (List Char)) : List (String × Bool) :=
  letters.map fun cs => (Options.word cs, false)

variable {letters : List (List Char)} {pattern : String}

/-- The words for options are groups of letters. -/
theorem map_fst_optionWords (letters : List (List Char)) :
    (optionWords letters).map Prod.fst = letters.map Options.word := by
  rw [optionWords, List.map_map]
  rfl

/-- Letters without bars make words without bars. -/
theorem barless_optionWords {allowed : List Char} (h : Options.Letters allowed letters)
    (hbar : '|' ∉ allowed) : Barless (optionWords letters) := by
  intro w hw _
  obtain ⟨cs, hcs, rfl⟩ := List.mem_map.mp hw
  have hword : (Options.word cs).toList = '-' :: cs := String.toList_ofList
  rw [hword, List.mem_cons, not_or]
  exact ⟨by decide, fun hmem => hbar ((h cs hcs).2 _ hmem)⟩

/-- A letter is set just if it is one of the letters. -/
theorem isSet_eq (letters : List (List Char)) (c : Char) :
    (((Options.setAll ∅ letters).get? c.toString).map OptionValue.isSet).getD false =
      decide (c ∈ letters.flatten) := by
  rw [Options.get?_setAll]
  by_cases hc : c ∈ letters.flatten
  · rw [if_pos hc, decide_eq_true hc]
    rfl
  · rw [if_neg hc, decide_eq_false hc]
    rfl

/-- A flag is set just if its letter is among the options. -/
theorem flag_eq {ctx : Context} (h : ctx.options = Options.setAll ∅ letters) (c : Char) :
    ctx.flag [c.toString] = decide (c ∈ letters.flatten) := by
  rw [Context.flag, List.any_cons, List.any_nil, Bool.or_false, h, isSet_eq]

/-- The filter that a pattern and letters of options stand for. -/
def filterOf (letters : List (List Char)) (pattern : String) : LineFilter :=
  ⟨pattern, 'i' ∈ letters.flatten, 'v' ∈ letters.flatten⟩

/-- A search makes of one input the lines that it selects. -/
theorem makes_grep (pattern text input : String) {paths : List String} {label : String}
    (hgrep : s.Runs "grep" .grep)
    (hletters : ∀ cs ∈ letters, cs ≠ [] ∧ '-' ∉ cs)
    (hin : ∀ (ctx : Context) (j : Job), ctx.cwd = s.cwd → j.session.volume = s.volume →
      j.pool.Ready ctx.ends.input ctx.ends.output → j.pool.heard (.keeper ctx.ends.input) = input →
      Prints ctx (inputs ctx "grep" paths) "" (some [(label, .string text)]) j) :
    s.Makes "grep" (letters.map Options.word ++ "--" :: pattern :: paths) input
      ((filterOf letters pattern).printed text)
      (LineFilter.codeOf [filterOf letters pattern] text) := by
  refine hgrep.makes fun j ends hvolume hready hinput => ?_
  have hsort := Options.sort_words_dashes hletters (pattern :: paths)
  have hoptions :
      (s.contextOf (letters.map Options.word ++ "--" :: pattern :: paths) ends).options =
        Options.setAll ∅ letters := by
    rw [contextOf, hsort]
  rw [LineFilter.codeOf, LineFilter.chosen_singleton]
  refine prints_grep (by rw [contextOf, hsort]) hready.takes (hin _ j rfl hvolume hready hinput) ?_
  have hi := flag_eq hoptions 'i'
  have hv := flag_eq hoptions 'v'
  rw [filterOf, ← hi, ← hv]
  rfl

/-- Counting depends on the options only. -/
theorem counts_congr {ctx ctx' : Context} (h : ctx.options = ctx'.options) (text : String) :
    counts ctx text = counts ctx' text := by
  have hflag : ctx.flag = ctx'.flag := by
    funext names
    rw [Context.flag, Context.flag, h]
  simp only [counts, hflag]

/-- A count makes of one input the numbers that are asked for. -/
theorem makes_wc (text input : String) {words paths : List String} {label : String}
    (hwc : s.Runs "wc" .wc)
    (hsort : Options.sort words = (paths, Options.setAll ∅ letters))
    (hletters : ∀ cs ∈ letters, cs ≠ [] ∧ '-' ∉ cs)
    (hin : ∀ (ctx : Context) (j : Job), ctx.cwd = s.cwd → j.session.volume = s.volume →
      j.pool.Ready ctx.ends.input ctx.ends.output → j.pool.heard (.keeper ctx.ends.input) = input →
      Prints ctx (inputs ctx "wc" paths) "" (some [(label, .string text)]) j) :
    s.Makes "wc" words input
      (countsLine (counts (s.contextOf (letters.map Options.word) default) text) label ++ "\n")
      success := by
  refine hwc.makes fun j ends hvolume hready hinput => ?_
  have harguments : (s.contextOf words ends).arguments = paths := by rw [contextOf, hsort]
  have hoptions : (s.contextOf words ends).options =
      (s.contextOf (letters.map Options.word) default).options := by
    rw [contextOf, contextOf, hsort, Options.sort_words hletters]
  rw [← counts_congr hoptions]
  refine prints_wc hready.takes ?_
  rw [harguments]
  exact hin _ j rfl hvolume hready hinput

/-- A file is shown to be what it holds, in whatever way it gets to the command. -/
theorem run_cat_of_reads (hcat : s.Runs "cat" .cat) (hdash : path ≠ "-")
    (hcontent : s.volume.tree.content path s.cwd = .ok content) (source : FileSource)
    (hline : source.Reads "cat" [("--", false)] [] path line) :
    (s.run line).1 = ⟨.ok success, content.plain, ""⟩ := by
  have hbar : Barless [("--", false)] := by simp [Barless]
  have hnone : Barless [] := fun _ hw => nomatch hw
  have hoperand : s.Makes "cat" (["--"] ++ [path]) "" content.plain success :=
    makes_cat_file hcat hdash hcontent ""
  have halone : s.Makes "cat" [] content.plain content.plain success :=
    hcat.makes fun _ _ _ hready hinput => prints_cat_input rfl hinput hready.takes
  have hrun := run_of_reads _ _ hcat.plain hcat hdash hcontent (by decide) hbar hnone hoperand
    halone source hline
  rwa [ite_self] at hrun

/-- The lines of a file that a filter chooses are printed, in whatever way the file gets to it. -/
theorem run_grep_of_reads (hcat : s.Runs "cat" .cat) (hgrep : s.Runs "grep" .grep)
    (hdash : path ≠ "-") (hcontent : s.volume.tree.content path s.cwd = .ok (.string text))
    (hletters : Options.Letters ['i', 'v'] letters) (source : FileSource)
    (hline : source.Reads "grep" (optionWords letters ++ [("--", false), (pattern, true)])
      (optionWords letters ++ [("--", false), (pattern, true)]) path line) :
    (s.run line).1 = ⟨.ok (LineFilter.codeOf [filterOf letters pattern] text),
      (filterOf letters pattern).printed text, ""⟩ := by
  have hbar : Barless (optionWords letters ++ [("--", false), (pattern, true)]) :=
    List.forall_mem_append.mpr ⟨barless_optionWords hletters (by decide), by simp⟩
  have hwords : (optionWords letters ++ [("--", false), (pattern, true)]).map Prod.fst =
      letters.map Options.word ++ ["--", pattern] := by
    rw [List.map_append, map_fst_optionWords]
    rfl
  have hdashless := hletters.no_dash (by decide)
  have hoperand : s.Makes "grep" (letters.map Options.word ++ ["--", pattern] ++ [path]) ""
      ((filterOf letters pattern).printed text)
      (LineFilter.codeOf [filterOf letters pattern] text) := by
    rw [List.append_assoc]
    exact makes_grep pattern text "" hgrep hdashless fun ctx j hcwd hvolume _ _ =>
      prints_contents "grep" (by rw [hcwd, hvolume]; exact hcontent)
  have halone := makes_grep pattern text text hgrep hdashless
    fun ctx j _ _ hready hinput => prints_inputs "grep" hinput hready.takes
  have hrun := run_of_reads _ _ hgrep.plain hcat hdash hcontent (by decide) hbar hbar
    (by rw [hwords]; exact hoperand) (by rw [hwords]; exact halone) source hline
  rwa [ite_self] at hrun

/-- What is asked for is counted in a file, in whatever way it gets to the command, and its name
stands behind the counts if it is an operand. -/
theorem run_wc_of_reads (hcat : s.Runs "cat" .cat) (hwc : s.Runs "wc" .wc) (hdash : path ≠ "-")
    (hcontent : s.volume.tree.content path s.cwd = .ok (.string text))
    (hletters : Options.Letters ['l', 'w', 'c'] letters) (source : FileSource)
    (hline : source.Reads "wc" (optionWords letters ++ [("--", false)]) (optionWords letters) path
      line) :
    (s.run line).1 = ⟨.ok success,
      countsLine (counts (s.contextOf (letters.map Options.word) default) text)
        (if source = .operand then path else "") ++ "\n", ""⟩ := by
  have hbar : Barless (optionWords letters) := barless_optionWords hletters (by decide)
  have hbar' : Barless (optionWords letters ++ [("--", false)]) :=
    List.forall_mem_append.mpr ⟨hbar, by simp⟩
  have hwords : (optionWords letters ++ [("--", false)]).map Prod.fst =
      letters.map Options.word ++ ["--"] := by
    rw [List.map_append, map_fst_optionWords]
    rfl
  have hdashless := hletters.no_dash (by decide)
  have hsort : Options.sort (letters.map Options.word ++ ["--"] ++ [path]) =
      ([path], Options.setAll ∅ letters) := by
    rw [List.append_assoc]
    exact Options.sort_words_dashes hdashless [path]
  have hoperand := makes_wc text "" hwc hsort hdashless fun ctx j hcwd hvolume _ _ =>
    prints_contents "wc" (by rw [hcwd, hvolume]; exact hcontent)
  have halone := makes_wc text text hwc (Options.sort_words hdashless) hdashless
    fun ctx j _ _ hready hinput => prints_inputs "wc" hinput hready.takes
  have hrun := run_of_reads _ _ hwc.plain hcat hdash hcontent (by decide) hbar' hbar
    (by rw [hwords]; exact hoperand) (by rw [map_fst_optionWords]; exact halone) source hline
  rw [hrun]
  split <;> rfl

/-- What one file comes to in commands that show, filter and count it, in whatever way it gets to
them. -/
structure RoutesAgree (s : Session) (path : String) (content : Content) : Prop where
  /-- It is shown as it is. -/
  cat : ∀ (source : FileSource) line, source.Reads "cat" [("--", false)] [] path line →
    (s.run line).1 = ⟨.ok success, content.plain, ""⟩
  /-- The lines that a filter chooses are printed. -/
  grep : ∀ text, content = .string text → ∀ letters pattern, Options.Letters ['i', 'v'] letters →
    ∀ (source : FileSource) line,
      source.Reads "grep" (optionWords letters ++ [("--", false), (pattern, true)])
        (optionWords letters ++ [("--", false), (pattern, true)]) path line →
      (s.run line).1 = ⟨.ok (LineFilter.codeOf [filterOf letters pattern] text),
        (filterOf letters pattern).printed text, ""⟩
  /-- It is counted, and its name stands behind the counts if it is an operand. -/
  wc : ∀ text, content = .string text → ∀ letters, Options.Letters ['l', 'w', 'c'] letters →
    ∀ (source : FileSource) line,
      source.Reads "wc" (optionWords letters ++ [("--", false)]) (optionWords letters) path line →
      (s.run line).1 = ⟨.ok success,
        countsLine (counts (s.contextOf (letters.map Options.word) default) text)
          (if source = .operand then path else "") ++ "\n", ""⟩

/-- Whatever file a path leads to, it is shown to be the same in all three ways; if it holds a text,
it is filtered and counted the same. -/
theorem routes_agree (hcat : s.Runs "cat" .cat) (hgrep : s.Runs "grep" .grep)
    (hwc : s.Runs "wc" .wc) (hdash : path ≠ "-")
    (hfile : s.volume.tree.item?.content? (resolve path s.cwd) = some content) :
    s.RoutesAgree path content := by
  have hcontent : s.volume.tree.content path s.cwd = .ok content := by
    obtain ⟨a, ha⟩ := PathMap.content?_eq_some_iff.mp hfile
    exact Tree.content_eq_ok_iff.mpr ⟨a, ha⟩
  refine ⟨fun source line => run_cat_of_reads hcat hdash hcontent source, ?_, ?_⟩
  · rintro text rfl letters pattern hletters source line
    exact run_grep_of_reads hcat hgrep hdash hcontent hletters source
  · rintro text rfl letters hletters source line
    exact run_wc_of_reads hcat hwc hdash hcontent hletters source

/-- A text of two lines, which is filtered behind a pipe. -/
theorem routes_agree_for_two_lines :
    (withFiles [("f", .string "one\nTwo")]).RoutesAgree "f" (.string "one\nTwo") ∧
      FileSource.piped.Reads "grep" [("-i", false), ("--", false), ("t", true)]
        [("-i", false), ("--", false), ("t", true)] "f" "cat -- 'f' | grep -i -- 't'" ∧
      (filterOf [['i']] "t").printed "one\nTwo" = "Two\n" := by
  refine ⟨routes_agree (by decide +kernel) (by decide +kernel) (by decide +kernel) (by decide) rfl,
    ⟨"cat -- 'f'", "grep -i -- 't'", ?_, ?_, rfl⟩, by decide +kernel⟩
  · exact Token.writes_of_written (by decide +kernel) (by decide +kernel) (by decide +kernel)
  · exact Token.writes_of_written (by decide +kernel) (by decide +kernel) (by decide +kernel)

/-- A file that a record has a list for is no text: it is not filtered as an operand, but what is
shown of it is filtered when it is the input. -/
theorem routes_differ_for_list :
    (withFiles [("f", .array [.int 1])]).volume.Fresh ∧
      (∀ name ∈ [("cat", Program.cat), ("grep", .grep), ("wc", .wc)],
        (withFiles [("f", .array [.int 1])]).Runs name.1 name.2) ∧
      FileSource.operand.Reads "grep" [("--", false), ("1", true)] [("--", false), ("1", true)] "f"
        "grep -- '1' 'f'" ∧
      FileSource.redirected.Reads "grep" [("--", false), ("1", true)] [("--", false), ("1", true)]
        "f" "grep -- '1' < 'f'" ∧
      ((withFiles [("f", .array [.int 1])]).run "grep -- '1' 'f'").1.code.toOption = some failure ∧
      ((withFiles [("f", .array [.int 1])]).run "grep -- '1' < 'f'").1.code.toOption =
        some success := by
  refine ⟨Or.inr ⟨.object [("type", .string "directory"), ("children", .object
    [("f", .object [("type", .string "file"), ("content", .array [.int 1])]),
      ("cat.cmd", .object [("type", .string "file"), ("content", .string "#!py-sh cat")]),
      ("grep.cmd", .object [("type", .string "file"), ("content", .string "#!py-sh grep")]),
      ("wc.cmd", .object [("type", .string "file"), ("content", .string "#!py-sh wc")])])], ?_⟩,
    by decide +kernel, ?_, ?_, by decide +kernel, by decide +kernel⟩
  · rfl
  · exact Token.writes_of_written (by decide +kernel) (by decide +kernel) (by decide +kernel)
  · exact Token.writes_of_written (by decide +kernel) (by decide +kernel) (by decide +kernel)

end Session

end TreeShell
