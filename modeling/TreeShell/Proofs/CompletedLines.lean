import TreeShell.Proofs.Boot
import TreeShell.Proofs.Completion
import TreeShell.Proofs.Line.Plain
import TreeShell.Proofs.Session.Lines

/-!
# Completed lines that are run

A path that was put in whole is read again when the line is run: the line is cut into stages, the
stage into words, and the last word is taken from the working directory. Nothing is quoted when a
name is put in, so this leads back to the entry only for a name without blanks, quotes, bars and
operators; and a tilde is taken for the home directory only by the command that changes to it.
-/

namespace TreeShell

namespace Path

/-- A name behind a path that is empty or ends with a slash leads to the entry of that name, also
with a slash behind it. -/
theorem resolve_append_name {name : String} (hname : IsProper name) {base : List Char}
    (hbase : base = [] ∨ ∃ before, base = before ++ ['/']) (cwd : String) :
    resolve (String.ofList base ++ name) cwd = resolve (String.ofList base) cwd ++ [name] := by
  rcases hbase with rfl | ⟨before, rfl⟩
  · have hnone : resolve (String.ofList []) cwd = Path.base cwd := by
      rw [resolve, if_neg (by decide)]
      rfl
    rw [hnone, String.ofList_nil, String.empty_append, resolve_of_isProper hname]
  · have hslash : String.ofList (before ++ ['/']) = String.ofList before ++ "/" :=
      String.ofList_append
    have hempty : parts (String.ofList before ++ "/") = parts (String.ofList before) ++ [""] :=
      parts_append _ ""
    have hne : String.ofList before ++ "/" ≠ "" := fun he =>
      absurd (String.append_eq_empty_iff.mp he).2 (by decide)
    have hstart := hasStart_append hne name
    rw [String.append_assoc] at hstart
    have hstay : ∀ p, step p "" = p := fun p => if_pos (Or.inl rfl)
    rw [hslash, String.append_assoc, resolve, resolve, hstart, parts_append, hempty,
      parts_of_isProper hname, List.foldl_append, List.foldl_append, List.foldl_cons,
      List.foldl_cons, List.foldl_nil, List.foldl_nil, hstay, step_proper hname]

end Path

namespace LineEnd

open Line

variable {line : List Char}

/-- A word in place of the one at the end of a plain line, with blanks behind it, is the last word
of the last stage. -/
theorem stages_of_word {v : String} {w bs : List Char} (hline : ∀ c ∈ line, IsPlain c)
    (hw : ∀ c ∈ w, IsPlain c ∧ Text.isBlank c = false ∧ c ≠ '|') (hne : w ≠ [])
    (hbs : ∀ c ∈ bs, IsPlain c ∧ Text.isBlank c = true ∧ c ≠ '|')
    (hv : v.toList = context line ++ (w ++ bs)) :
    ∃ stage, (stages v).getLast? = some stage ∧
      Token.ofStage stage =
        .ok ((Text.words (stageBefore line) ++ [w]).map fun word =>
          .word (String.ofList word) false) := by
  have hcontext : ∀ c ∈ context line, IsPlain c := fun c hc =>
    hline c (context_append_token line ▸ List.mem_append_left _ hc)
  have hend : ∀ c ∈ w ++ bs, IsPlain c ∧ c ≠ '|' := by
    intro c hc
    rcases List.mem_append.mp hc with hc | hc
    · exact ⟨(hw c hc).1, (hw c hc).2.2⟩
    · exact ⟨(hbs c hc).1, (hbs c hc).2.2⟩
  have hstage : v.toList.rtakeWhile (· != '|') = stageBefore line ++ (w ++ bs) := by
    rw [hv]
    exact Text.rtakeWhile_append_of_all fun c hc => bne_iff_ne.mpr (hend c hc).2
  have hwords : Text.words (stageBefore line ++ (w ++ bs)) =
      Text.words (stageBefore line) ++ [w] := by
    rw [words_stageBefore_append, Text.words_append_blanks fun c hc => (hbs c hc).2.1,
      Text.words_of_all_not (fun c hc => (hw c hc).2.1) hne]
  have hquotes : ∀ c ∈ v.toList, isQuote c = false := by
    intro c hc
    rw [hv] at hc
    rcases List.mem_append.mp hc with hc | hc
    · exact (hcontext c hc).no_quote
    · exact (hend c hc).1.no_quote
  have hplain : ∀ c ∈ stageBefore line ++ (w ++ bs), IsPlain c := by
    intro c hc
    rcases List.mem_append.mp hc with hc | hc
    · exact hcontext c ((List.rtakeWhile_suffix _ _).subset hc)
    · exact (hend c hc).1
  have hlast := getLast?_stages hquotes (by
    rw [hstage, ← Text.words_eq_nil_iff, hwords]
    exact List.concat_ne_nil w _)
  rw [hstage] at hlast
  exact ⟨_, hlast, by rw [Token.ofStage_trim hplain, hwords]⟩

end LineEnd

/-- The base of a word is nothing, or ends with a slash. -/
theorem PathEnd.basePart_cases (word : List Char) :
    PathEnd.basePart word = [] ∨ ∃ before, PathEnd.basePart word = before ++ ['/'] := by
  rcases Text.cutLast_cases '/' word with ⟨hnil, -⟩ | ⟨before, hbefore, -⟩
  · exact Or.inl hnil
  · exact Or.inr ⟨before, hbefore⟩

namespace Session

variable {s : Session} {line v name slash : String} {base : List Char}

/-! ## The home directory -/

/-- Whether a path begins with a tilde for the home directory is told by what it has up to a
slash. -/
theorem hasTilde_append_iff (before : List Char) (rest : String) :
    HasTilde (String.ofList (before ++ ['/']) ++ rest) ↔
      HasTilde (String.ofList (before ++ ['/'])) := by
  rw [hasTilde_iff, hasTilde_iff, String.toList_append, String.toList_ofList]
  cases before with
  | nil => simp
  | cons c before =>
    cases before with
    | nil => simp
    | cons d before => simp

/-- A name is no tilde for the home directory, unless it is one tilde. -/
theorem not_hasTilde_name (hname : Path.IsProper name) (hslash : slash = "" ∨ slash = "/")
    (h : name ≠ "~") : ¬ HasTilde (name ++ slash) := by
  have hlist : name.toList ≠ ['~'] := fun he => h (String.toList_inj.mp he)
  have hno := hname.no_slash
  rw [hasTilde_iff, String.toList_append]
  rintro (he | ⟨rest, he⟩)
  · rcases hslash with rfl | rfl
    · exact hlist (by simpa using he)
    · exact hname.ne_empty (by simpa using congrArg List.dropLast he)
  · -- a slash that comes second is in the name, or right behind it
    cases hcs : name.toList with
    | nil => exact hname.ne_empty (String.toList_eq_nil_iff.mp hcs)
    | cons c cs =>
      rw [hcs, List.cons_append] at he
      rw [hcs] at hlist hno
      obtain ⟨rfl, htail⟩ := List.cons.inj he
      cases cs with
      | nil => exact hlist rfl
      | cons d cs =>
        obtain ⟨rfl, -⟩ := List.cons.inj htail
        exact hno (List.mem_cons_of_mem _ List.mem_cons_self)

/-- The home directory is put in place of a tilde before a path goes on, unless the path is a name
of one tilde. -/
theorem expandHome_completed (hname : Path.IsProper name) (hslash : slash = "" ∨ slash = "/")
    (hbase : base = [] ∨ ∃ before, base = before ++ ['/']) (h : base ≠ [] ∨ name ≠ "~")
    (s : Session) :
    s.expandHome (String.ofList base ++ name ++ slash) =
      s.expandHome (String.ofList base) ++ name ++ slash := by
  rcases hbase with rfl | ⟨before, rfl⟩
  · have hnone : s.expandHome "" = "" := expandHome_of_not_hasTilde (by rw [hasTilde_iff]; simp) s
    have htilde := not_hasTilde_name hname hslash (h.resolve_left fun hne => hne rfl)
    rw [String.ofList_nil, String.empty_append, hnone, String.empty_append,
      expandHome_of_not_hasTilde htilde]
  · have hne : String.ofList (before ++ ['/']) ≠ "" := by
      rw [Ne, String.ofList_eq_empty_iff]
      exact List.concat_ne_nil '/' before
    rw [String.append_assoc, expandHome_append hne (hasTilde_append_iff before _),
      String.append_assoc]

/-- What a base stands for is nothing, or ends with a slash, also with the home directory in place
of a tilde. -/
theorem expandHome_base (hbase : base = [] ∨ ∃ before, base = before ++ ['/']) (s : Session) :
    ∃ cs, s.expandHome (String.ofList base) = String.ofList cs ∧
      (cs = [] ∨ ∃ before, cs = before ++ ['/']) := by
  rcases hbase with rfl | ⟨before, rfl⟩
  · exact ⟨[], expandHome_of_not_hasTilde (by rw [hasTilde_iff]; simp) s, Or.inl rfl⟩
  · by_cases hne : before = []
    · rw [hne]
      exact ⟨['/'], expandHome_of_not_hasTilde (by rw [hasTilde_iff]; simp) s, Or.inr ⟨[], rfl⟩⟩
    · have hpath : String.ofList before ≠ "" := by
        rw [Ne, String.ofList_eq_empty_iff]
        exact hne
      refine ⟨(s.expandHome (String.ofList before)).toList ++ ['/'], ?_, Or.inr ⟨_, rfl⟩⟩
      have hslash : String.ofList (before ++ ['/']) = String.ofList before ++ "/" :=
        String.ofList_append
      rw [hslash, expandHome_slash hpath, String.ofList_append, String.ofList_toList]

/-- How the path that was put in leads to the entry: as it is, without a tilde, and in any case with
the home directory in its place. -/
theorem resolve_completed (hname : Path.IsProper name) (hslash : slash = "" ∨ slash = "/")
    (hbase : base = [] ∨ ∃ before, base = before ++ ['/']) (s : Session) :
    (¬ HasTilde (String.ofList base) →
      Path.resolve (String.ofList base ++ name ++ slash) s.cwd = s.directoryOf base ++ [name]) ∧
    (base ≠ [] ∨ name ≠ "~" →
      Path.resolve (s.expandHome (String.ofList base ++ name ++ slash)) s.cwd =
        s.directoryOf base ++ [name]) := by
  have hend : ∀ path : String, path ≠ "" →
      Path.resolve (path ++ slash) s.cwd = Path.resolve path s.cwd := by
    intro path hpath
    rcases hslash with rfl | rfl
    · rw [String.append_empty]
    · exact Path.resolve_slash hpath s.cwd
  have hfull : ∀ path : String, path ++ name ≠ "" := fun path he =>
    hname.ne_empty (String.append_eq_empty_iff.mp he).2
  refine ⟨fun htilde => ?_, fun h => ?_⟩
  · rw [hend _ (hfull _), Path.resolve_append_name hname hbase, directoryOf,
      expandHome_of_not_hasTilde htilde]
  · obtain ⟨cs, hcs, hend'⟩ := expandHome_base hbase s
    rw [expandHome_completed hname hslash hbase h, hend _ (hfull _), directoryOf, hcs,
      Path.resolve_append_name hname hend']

/-! ## Lines -/

/-- What comes behind a name that is put in: a slash that belongs to the word, or a blank. -/
def EndsName (slash blank : String) : Prop := slash = "/" ∧ blank = "" ∨ slash = "" ∧ blank = " "

/-- What comes behind a name has a slash that belongs to the word, or none. -/
theorem EndsName.cases {slash blank : String} (h : EndsName slash blank) :
    slash = "" ∨ slash = "/" :=
  h.symm.imp And.left And.left

/-- A proper name is looked up as the entry of the directory, also below dots. -/
theorem goesOn_listedChoice (hname : Path.IsProper name) (token : List Char) :
    (s.listedChoice token).goesOn name =
      s.volume.tree.item?.isDirectory (s.directoryOf (PathEnd.basePart token) ++ [name]) := by
  rw [listedChoice, directoryOf]
  dsimp only
  rw [Tree.isDirectory_eq, Path.resolve_of_isProper hname, Path.base_format_resolve]

/-- A path that is completed becomes the name of one entry that fits, with a slash behind it if the
entry goes on. -/
theorem complete_path_eq_some (hpath : ¬ LineEnd.AtCommand line.toList)
    (hv : s.complete line = some (.complete v)) :
    let c := s.listedChoice (LineEnd.token line.toList)
    ∃ name slash blank, EndsName slash blank ∧ (slash = "/" ↔ c.goesOn name = true) ∧ c.Fits name ∧
      v = String.ofList (LineEnd.context line.toList) ++ (String.ofList c.base ++ name ++ slash) ++
        blank := by
  intro c
  rw [complete, LineEnd.of_eq] at hv
  dsimp only at hv
  rw [decide_eq_false hpath, if_neg Bool.false_ne_true] at hv
  obtain ⟨bare, hbare, hfits, houtcome⟩ :=
    completePath_eq_outcome s (LineEnd.context line.toList) (LineEnd.token line.toList)
  rw [houtcome] at hv
  obtain ⟨name, rest, honly, hname, hline⟩ := ((Choice.outcome_iff hfits hbare).2.1 v).mp hv
  -- what is there of the name is the end of the word
  have htoken : c.base ++ c.start = LineEnd.token line.toList :=
    PathEnd.basePart_append_namePart _
  have hrest : String.ofList (LineEnd.context line.toList ++ LineEnd.token line.toList) ++
      String.ofList rest =
        String.ofList (LineEnd.context line.toList) ++ (String.ofList c.base ++ name) := by
    rw [← htoken, ← String.toList_inj]
    simp only [String.toList_append, String.toList_ofList, List.append_assoc]
    rw [hname]
  rw [hrest] at hline
  have hfits' : c.Fits name := (honly name).mpr rfl
  by_cases hgoesOn : c.goesOn name = true
  · refine ⟨name, "/", "", Or.inl ⟨rfl, rfl⟩, iff_of_true rfl hgoesOn, hfits', ?_⟩
    rw [hline, if_pos hgoesOn, String.append_empty, String.append_assoc]
  · refine ⟨name, "", " ", Or.inr ⟨rfl, rfl⟩, iff_of_false (by decide) hgoesOn, hfits', ?_⟩
    rw [hline, if_neg hgoesOn, String.append_empty]

/-- A name that can be put into a line as it is. -/
def IsBare (name : String) : Prop :=
  ∀ c ∈ name.toList, Line.IsPlain c ∧ Text.isBlank c = false ∧ c ≠ '|'

/-- What becomes of the word at the end of a plain line can be put into the line as it is, if the
name can. -/
theorem plain_completed {line : List Char} (hplain : ∀ c ∈ line, Line.IsPlain c)
    (hbare : IsBare name) (hslash : slash = "" ∨ slash = "/") :
    ∀ c ∈ PathEnd.basePart (LineEnd.token line) ++ name.toList ++ slash.toList,
      Line.IsPlain c ∧ Text.isBlank c = false ∧ c ≠ '|' := by
  intro c hc
  rcases List.mem_append.mp hc with hc | hc
  · rcases List.mem_append.mp hc with hc | hc
    · have htoken : c ∈ LineEnd.token line := by
        rw [← PathEnd.basePart_append_namePart (LineEnd.token line)]
        exact List.mem_append_left _ hc
      have hline : c ∈ line := by
        rw [← LineEnd.context_append_token line]
        exact List.mem_append_right _ htoken
      exact ⟨hplain c hline, LineEnd.isBound_of_mem_token htoken⟩
    · exact hbare c hc
  · rcases hslash with rfl | rfl
    · exact absurd hc List.not_mem_nil
    · rw [List.mem_singleton.mp hc]
      exact ⟨⟨rfl, by decide, by decide⟩, by decide, by decide⟩

/-- A name that can be put in as it is makes the last word of the new line, behind the words that
were there. -/
theorem words_completed {blank : String} (hplain : ∀ c ∈ line.toList, Line.IsPlain c)
    (hname : name ≠ "") (hbare : IsBare name) (hends : EndsName slash blank)
    (hv : v = String.ofList (LineEnd.context line.toList) ++
      (String.ofList (PathEnd.basePart (LineEnd.token line.toList)) ++ name ++ slash) ++ blank) :
    ∃ stage, (Line.stages v).getLast? = some stage ∧
      Token.ofStage stage =
        .ok (((Text.words (LineEnd.stageBefore line.toList)).map String.ofList ++
          [String.ofList (PathEnd.basePart (LineEnd.token line.toList)) ++ name ++ slash]).map
            fun word => .word word false) := by
  have hword := plain_completed hplain hbare hends.cases
  have hne : PathEnd.basePart (LineEnd.token line.toList) ++ name.toList ++ slash.toList ≠ [] := by
    intro hnil
    rw [List.append_eq_nil_iff, List.append_eq_nil_iff] at hnil
    exact hname (String.toList_eq_nil_iff.mp hnil.1.2)
  have hblank : ∀ c ∈ blank.toList, Line.IsPlain c ∧ Text.isBlank c = true ∧ c ≠ '|' := by
    intro c hc
    rcases hends with ⟨-, rfl⟩ | ⟨-, rfl⟩
    · exact absurd hc List.not_mem_nil
    · rw [List.mem_singleton.mp hc]
      exact ⟨⟨rfl, by decide, by decide⟩, by decide, by decide⟩
  obtain ⟨stage, hstage, htokens⟩ := LineEnd.stages_of_word (v := v) hplain hword hne hblank (by
    rw [hv]
    simp only [String.toList_append, String.toList_ofList, List.append_assoc])
  refine ⟨stage, hstage, htokens.trans (congrArg Except.ok ?_)⟩
  simp only [List.map_append, List.map_map, List.map_singleton, String.ofList_append,
    String.ofList_toList]
  rfl

/-- What comes of a line whose end is a path with a base, when the name of an entry is put in, and
how the new line is read. -/
structure CompletedPath (s : Session) (line v : String) (base : List Char)
    (name slash : String) : Prop where
  /-- The name is that of an entry of the directory that is listed. -/
  entry : s.volume.tree.find? (s.listedOf base ++ [name]) ≠ none
  /-- It begins with what was typed of it behind the base. -/
  typed : ∃ start, LineEnd.token line.toList = base ++ start ∧ start <+: name.toList
  /-- The word at the end of the line becomes the base and the name, with a slash or a blank. -/
  text : ∃ before blank, line = before ++ String.ofList (LineEnd.token line.toList) ∧
    v = before ++ (String.ofList base ++ name ++ slash) ++ blank ∧ EndsName slash blank
  /-- It is a slash just if there is a directory when the name is looked up from the directory. -/
  looked : slash = "/" ↔
    s.volume.tree.isDirectory name (Path.format (s.directoryOf base)) = true
  /-- For a proper name this is the entry itself. -/
  directory : Path.IsProper name → Path.IsStraight s.cwd →
    (slash = "/" ↔ s.volume.tree.item?.isDirectory (s.listedOf base ++ [name]) = true)
  /-- A proper name that can be put in as it is makes the last word, behind those that were
  there. -/
  words : Path.IsProper name → IsBare name →
    ∃ stage, (Line.stages v).getLast? = some stage ∧
      Token.ofStage stage =
        .ok (((Text.words (LineEnd.stageBefore line.toList)).map String.ofList ++
          [String.ofList base ++ name ++ slash]).map fun word => .word word false)
  /-- That leads to the entry, unless it begins with a tilde. -/
  leads : Path.IsProper name → Path.IsStraight s.cwd → ¬ HasTilde (String.ofList base) →
    Path.resolve (String.ofList base ++ name ++ slash) s.cwd = s.listedOf base ++ [name]
  /-- With the home directory in place of a tilde it does so in any case, unless it is one tilde. -/
  leadsHome : Path.IsProper name → Path.IsStraight s.cwd → base ≠ [] ∨ name ≠ "~" →
    Path.resolve (s.expandHome (String.ofList base ++ name ++ slash)) s.cwd =
      s.listedOf base ++ [name]

/-- A path that is completed in a plain line becomes the name of an entry, and what is put in leads
to that entry when the line is run. -/
theorem completes_to_path_of_entry (hplain : ∀ c ∈ line.toList, Line.IsPlain c)
    (hpath : ¬ LineEnd.AtCommand line.toList) (hv : s.complete line = some (.complete v)) :
    ∃ name slash,
      s.CompletedPath line v (PathEnd.basePart (LineEnd.token line.toList)) name slash := by
  obtain ⟨name, slash, blank, hends, hlooked, ⟨hfound, hstart⟩, htext⟩ :=
    complete_path_eq_some hpath hv
  have hleads := fun hname : Path.IsProper name =>
    resolve_completed hname hends.cases (PathEnd.basePart_cases (LineEnd.token line.toList)) s
  have htoken := PathEnd.basePart_append_namePart (LineEnd.token line.toList)
  have hline : line = String.ofList (LineEnd.context line.toList) ++
      String.ofList (LineEnd.token line.toList) := by
    rw [← String.ofList_append, LineEnd.context_append_token, String.ofList_toList]
  exact ⟨name, slash, {
    entry := hfound
    typed := ⟨_, htoken.symm, hstart⟩
    text := ⟨_, blank, hline, htext, hends⟩
    looked := hlooked
    directory hname hcwd := by
      rw [hlooked, listedOf_eq hcwd, goesOn_listedChoice hname]
    words hname hbare := words_completed hplain hname.ne_empty hbare hends htext
    leads hname hcwd htilde := (listedOf_eq hcwd _).symm ▸ (hleads hname).1 htilde
    leadsHome hname hcwd hne := (listedOf_eq hcwd _).symm ▸ (hleads hname).2 hne }⟩

/-- The entry two directories up is put in with a slash, read from the new line and found. -/
theorem completes_to_path_of_only_entry :
    twoBelow.complete "ls ../../" = some (.complete "ls ../../a/") ∧
      (∃ stage, (Line.stages "ls ../../a/").getLast? = some stage ∧
        Token.ofStage stage = .ok [.word "ls" false, .word "../../a/" false]) ∧
      Path.resolve "../../a/" twoBelow.cwd = ["a"] := by
  have hplain : ∀ c ∈ "ls ../../".toList, Line.IsPlain c := Line.isPlain_of_all (by decide)
  have hpath : ¬ LineEnd.AtCommand "ls ../../".toList := by decide +kernel
  obtain ⟨name, slash, h⟩ := completes_to_path_of_entry hplain hpath complete_twoBelow
  have hbase : PathEnd.basePart (LineEnd.token "ls ../../".toList) = "../../".toList := by
    decide +kernel
  have hplace : twoBelow.listedOf "../../".toList = [] := by decide +kernel
  have hwords :
      (Text.words (LineEnd.stageBefore "ls ../../".toList)).map String.ofList = ["ls"] := by
    decide +kernel
  rw [hbase] at h
  have hfound := h.entry
  rw [hplace] at hfound
  obtain rfl : name = "a" :=
    List.mem_singleton.mp (((Tree.lists_of_childNames childNames_twoBelow).mem_iff name).mpr hfound)
  have hproper : Path.IsProper "a" := by decide
  have hbare : IsBare "a" := by
    intro c hc
    rw [List.mem_singleton.mp hc]
    exact ⟨⟨rfl, by decide, by decide⟩, by decide, by decide⟩
  obtain rfl : slash = "/" := h.looked.mpr (by decide +kernel)
  have htokens := h.words hproper hbare
  have hresolve := h.leads hproper isStraight_twoBelow (by decide +kernel)
  rw [hwords] at htokens
  rw [hplace] at hresolve
  exact ⟨complete_twoBelow, htokens, hresolve⟩

/-! ## Lines that lead elsewhere -/

/-- The names in a directory are its keys in order. -/
theorem childNames_eq_sorted {t : Tree} {path cwd : String} {keys : List String}
    (hdir : t.isDirectory path cwd = true)
    (hkeys : (t.lookup (Path.resolve path cwd)).map (fun e => e.2.children.keys) = some keys) :
    t.childNames path cwd = .ok (Text.sorted keys) := by
  rw [Tree.isDirectory] at hdir
  rw [Tree.childNames]
  cases hl : t.lookup (Path.resolve path cwd) with
  | none =>
    rw [hl] at hkeys
    cases hkeys
  | some e =>
    rw [hl] at hdir hkeys
    dsimp only at hdir ⊢
    rw [Inode.body_of_directory hdir]
    dsimp only
    rw [Option.map_some, Option.some.injEq] at hkeys
    rw [hkeys]

/-- The usual session after four files with unusual names were made. -/
def unusual (s : Session) : Session := (s.runOn "touch 'a b' 'c|d' 'e\"f' 'g>h'" .apart).2.session

/-- There is a session with these files in its home. -/
theorem exists_unusual : ∃ s : Session, s.Reached ∧ s.cwd = "/home/guest" ∧ s.home = "/home/guest" ∧
    s.volume.tree.isDirectory "/home/guest" "/" = true ∧
    (s.volume.tree.lookup (Path.resolve "/home/guest" "/")).map (fun e => e.2.children.keys) =
      some ["README.md", ".local", "a b", "c|d", "e\"f", "g>h"] ∧
    ∀ name ∈ ["README.md", "a b", "c|d", "e\"f", "g>h"],
      s.volume.tree.isDirectory name "/home/guest" = false := by
  refine ⟨unusual Boot.usualSession, .line (.boot Boot.usual_eq) _ _, ?_⟩
  decide +kernel

/-- The only one of some keys that begins with a text is also the only one of them in order. -/
theorem matching_sorted {start : List Char} {keys : List String} {name : String}
    (h : matching start keys = [name]) : matching start (Text.sorted keys) = [name] := by
  have hperm : (matching start (Text.sorted keys)).Perm (matching start keys) :=
    (Text.sorted_perm keys).filter _
  rw [h] at hperm
  exact List.perm_singleton.mp hperm

/-- What the last stage of a line is read as. -/
def lastTokens (line : String) : Option (Except LineError (List Token)) :=
  (Line.stages line).getLast?.map Token.ofStage

/-- A completed line is read otherwise if the name that was put in holds a blank, a bar, a quote or
an operator; and a tilde in it leads to no home directory. -/
theorem completes_to_other_paths :
    ∃ s : Session, s.Reached ∧ s.cwd = "/home/guest" ∧
      (s.complete "cat a" = some (.complete "cat a b ") ∧
        lastTokens "cat a b " = some (.ok [.word "cat" false, .word "a" false, .word "b" false])) ∧
      (s.complete "cat c" = some (.complete "cat c|d ") ∧
        lastTokens "cat c|d " = some (.ok [.word "d" false])) ∧
      (s.complete "cat e" = some (.complete "cat e\"f ") ∧
        lastTokens "cat e\"f " = some (.error (.unterminated '"'))) ∧
      (s.complete "cat g" = some (.complete "cat g>h ") ∧
        lastTokens "cat g>h " =
          some (.ok [.word "cat" false, .word "g" false, .operator .write none, .word "h" false])) ∧
      s.complete "cat ~/R" = some (.complete "cat ~/README.md ") ∧
        lastTokens "cat ~/README.md " =
          some (.ok [.word "cat" false, .word "~/README.md" false]) ∧
        Path.resolve "~/README.md" s.cwd = ["home", "guest", "~", "README.md"] := by
  obtain ⟨s, hs, hcwd, hhome, hdir, hkeys, hfile⟩ := exists_unusual
  have hlist := childNames_eq_sorted hdir hkeys
  have hhere : Path.format (Path.resolve (s.expandHome (String.ofList ['.'])) s.cwd) =
      "/home/guest" := by
    rw [expandHome_of_not_hasTilde (by decide), hcwd]
    decide +kernel
  have hthere : Path.format (Path.resolve (s.expandHome (String.ofList ['~'])) s.cwd) =
      "/home/guest" := by
    rw [expandHome, if_pos (Or.inl rfl), hhome, hcwd]
    decide +kernel
  have hend : ∀ w ∈ ["a", "c", "e", "g"],
      LineEnd.of ("cat " ++ w).toList = ⟨"cat ".toList, w.toList, false⟩ := by
    decide +kernel
  have hof : ∀ w ∈ ["a", "c", "e", "g"], PathEnd.of w.toList = ⟨[], ['.'], w.toList⟩ := by
    decide +kernel
  have hput : ∀ w ∈ ["a", "c", "e", "g"], ∀ name ∈ ["README.md", "a b", "c|d", "e\"f", "g>h"],
      matching w.toList ["README.md", ".local", "a b", "c|d", "e\"f", "g>h"] = [name] →
        s.complete ("cat " ++ w) = some (.complete ("cat " ++ name ++ " ")) := by
    intro w hw name hname hmatch
    rw [complete_of_single (hend w hw) (hof w hw) hhere hlist (matching_sorted hmatch),
      hfile name hname, String.ofList_toList, String.ofList_nil, String.append_empty,
      if_neg Bool.false_ne_true]
  have hendTilde : LineEnd.of "cat ~/R".toList = ⟨"cat ".toList, "~/R".toList, false⟩ := by
    decide +kernel
  have hofTilde : PathEnd.of "~/R".toList = ⟨"~/".toList, ['~'], ['R']⟩ := by decide +kernel
  have hR : matching ['R'] ["README.md", ".local", "a b", "c|d", "e\"f", "g>h"] = ["README.md"] :=
    rfl
  refine ⟨s, hs, hcwd, ⟨hput "a" (by decide) "a b" (by decide) rfl, rfl⟩,
    ⟨hput "c" (by decide) "c|d" (by decide) rfl, rfl⟩,
    ⟨hput "e" (by decide) "e\"f" (by decide) rfl, rfl⟩,
    ⟨hput "g" (by decide) "g>h" (by decide) rfl, rfl⟩, ?_, rfl, ?_⟩
  · rw [complete_of_single hendTilde hofTilde hthere hlist (matching_sorted hR),
      hfile "README.md" (by decide)]
    rfl
  · rw [hcwd]
    decide +kernel

end Session

end TreeShell
