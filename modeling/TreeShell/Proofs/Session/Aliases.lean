import TreeShell.Proofs.Line.Parts
import TreeShell.Proofs.OrderedMap
import TreeShell.Session.Basic

/-!
# What an alias takes the place of

An alias is looked up for what a stage begins with, up to the first blank, while a command is the
first word that stands behind no operator. Both are the same word just if it stands alone at the
start of the stage. Then the tokens of the expansion come in its place and all others stay. Where a
redirection is written before the word, or right behind it, an alias for it is overlooked.
-/

namespace TreeShell

/-! ## The first token of a text -/

namespace Token

open Line Text

variable {cs : List Char} {w : String} {ts : List Token}

/-- Blanks before a text have no part in its tokens. -/
theorem scan_blanks {bs : List Char} (h : ∀ b ∈ bs, isBlank b = true) (cs : List Char) :
    scan none none (bs ++ cs) = scan none none cs := by
  induction bs with
  | nil => rfl
  | cons b bs ih =>
    obtain ⟨hb, hbs⟩ := List.forall_mem_cons.mp h
    rw [List.cons_append, scan_blank hb, ih hbs]
    cases scan none none cs <;> rfl

theorem scan_trimStart (cs : List Char) : scan none none (trimStart cs) = scan none none cs := by
  obtain ⟨bs, hb, hcs⟩ := exists_append_trimStart cs
  conv_rhs => rw [hcs]
  rw [scan_blanks hb]

/-- An open word that was quoted is the next token. -/
theorem head_of_quoted {open? : Option Char} {u : List Char}
    (h : scan open? (some ⟨u, true⟩) cs = .ok ts) :
    ∃ text rest, ts = .word text true :: rest := by
  -- what is found where the open word ends begins with it
  have hbefore : ∀ {found later : Except LineError (List Token)} {ts : List Token},
      (∀ {a}, found = .ok a → ∃ text rest, a = .word text true :: rest) →
        before found later = .ok ts → ∃ text rest, ts = .word text true :: rest := by
    intro found later ts hfound hts
    obtain ⟨a, b, ha, -, rfl⟩ := before_eq_ok.mp hts
    obtain ⟨text, rest, rfl⟩ := hfound ha
    exact ⟨text, rest ++ b, rfl⟩
  have hclose : ∀ {u : List Char} {op : Operator} {a : List Token},
      close (some ⟨u, true⟩) op = .ok a → ∃ text rest, a = .word text true :: rest := by
    intro u op a ha
    cases ha
    exact ⟨_, _, rfl⟩
  generalize hw : (some ⟨u, true⟩ : Option Open) = w at h
  fun_induction scan open? w cs generalizing u ts with
  | case1 => cases h
  | case2 w =>
    cases hw
    cases h
    exact ⟨_, _, rfl⟩
  | case3 w c cs ih => exact ih hw h
  | case4 q w c cs hc ih =>
    cases hw
    exact ih rfl h
  | case5 w cs ih | case6 w cs ih | case9 w cs _ _ _ _ ih | case10 w cs _ _ _ _ _ ih =>
    cases hw
    exact hbefore hclose h
  | case7 w c cs _ _ _ ih =>
    cases hw
    exact ih rfl h
  | case8 w c cs _ _ _ _ ih =>
    cases hw
    refine hbefore (fun ha => ?_) h
    cases ha
    exact ⟨_, _, rfl⟩
  | case11 w c cs _ _ _ _ _ _ ih =>
    cases hw
    exact ih rfl h

/-- A blank or an operator comes first, or nothing: a word without quotes ends there. -/
def EndsWord (tail : List Char) : Prop :=
  ∀ c, tail.head? = some c → isBlank c = true ∨ c = '>' ∨ c = '<'

/-- A word that an operator ends, and that is no descriptor, is the open one. -/
theorem word_of_close {u : List Char} {op : Operator} {later : Except LineError (List Token)}
    (h : before (close (some ⟨u, false⟩) op) later = .ok (.word w false :: ts)) :
    w.toList = u := by
  obtain ⟨a, b, ha, -, hts⟩ := before_eq_ok.mp h
  unfold close at ha
  dsimp only at ha
  split at ha
  · split at ha
    · cases ha
      cases hts
    · cases ha
  · cases ha
    cases hts
    rw [String.toList_ofList]

/-- The characters up to where a word ends are those of the token. -/
theorem ends_of_open {u : List Char}
    (h : scan none (some ⟨u, false⟩) cs = .ok (.word w false :: ts)) :
    ∃ v tail, cs = v ++ tail ∧ w.toList = u ++ v ∧ EndsWord tail := by
  have hstop : ∀ {u : List Char} {c : Char} {cs : List Char}, w.toList = u →
      isBlank c = true ∨ c = '>' ∨ c = '<' →
        ∃ v tail, c :: cs = v ++ tail ∧ w.toList = u ++ v ∧ EndsWord tail := by
    intro u c cs hu hc
    refine ⟨[], c :: cs, rfl, by rw [hu, List.append_nil], fun d hd => ?_⟩
    rw [← Option.some.inj hd]
    exact hc
  generalize hq : (none : Option Char) = open? at h
  generalize ho : (some ⟨u, false⟩ : Option Open) = o at h
  fun_induction scan open? o cs generalizing u with
  | case1 => cases hq
  | case2 o =>
    cases ho
    cases h
    refine ⟨[], [], rfl, ?_, fun c hc => by cases hc⟩
    rw [String.toList_ofList, List.append_nil]
  | case3 o c cs ih => cases hq
  | case4 q o c cs hc ih => cases hq
  | case5 o cs ih | case9 o cs _ _ _ _ ih =>
    cases ho
    exact hstop (word_of_close h) (.inr (.inl rfl))
  | case6 o cs ih | case10 o cs _ _ _ _ _ ih =>
    cases ho
    exact hstop (word_of_close h) (.inr (.inr rfl))
  | case7 o c cs _ _ _ ih =>
    cases ho
    obtain ⟨text, rest, hquoted⟩ := head_of_quoted h
    cases hquoted
  | case8 o c cs _ _ _ hc ih =>
    cases ho
    obtain ⟨a, b, ha, -, hts⟩ := before_eq_ok.mp h
    cases ha
    cases hts
    exact hstop (String.toList_ofList) (.inl hc)
  | case11 o c cs _ _ _ _ _ _ ih =>
    cases ho
    obtain ⟨v, tail, rfl, hw, hend⟩ := ih hq rfl h
    exact ⟨c :: v, tail, rfl, by rw [hw, List.append_assoc, List.singleton_append], hend⟩

/-- A first token that is a word without quotes stands at the start of the text. -/
theorem exists_begins (h : scan none none cs = .ok (.word w false :: ts)) :
    ∃ tail, Begins cs w.toList tail ∧ EndsWord tail := by
  have hclose : ∀ {op : Operator} {later : Except LineError (List Token)},
      before (close none op) later ≠ .ok (.word w false :: ts) := by
    intro op later hts
    obtain ⟨a, b, ha, -, hts⟩ := before_eq_ok.mp hts
    cases ha
    cases hts
  generalize hq : (none : Option Char) = open? at h
  generalize ho : (none : Option Open) = o at h
  fun_induction scan open? o cs with
  | case1 => cases hq
  | case2 o =>
    cases ho
    cases h
  | case3 o c cs ih => cases hq
  | case4 q o c cs hc ih => cases hq
  | case5 o cs ih | case6 o cs ih | case9 o cs _ _ _ _ ih | case10 o cs _ _ _ _ _ ih =>
    cases ho
    exact absurd h hclose
  | case7 o c cs _ _ _ ih =>
    cases ho
    obtain ⟨text, rest, hquoted⟩ := head_of_quoted h
    cases hquoted
  | case8 o c cs _ _ _ hc ih =>
    cases ho
    obtain ⟨a, b, ha, hlater, hts⟩ := before_eq_ok.mp h
    cases ha
    rw [flush, List.nil_append] at hts
    obtain ⟨tail, ⟨bs, hb, rfl⟩, hend⟩ := ih rfl rfl (hts ▸ hlater)
    exact ⟨tail, ⟨c :: bs, List.forall_mem_cons.mpr ⟨hc, hb⟩, rfl⟩, hend⟩
  | case11 o c cs _ _ _ _ _ _ ih =>
    cases ho
    obtain ⟨v, tail, rfl, hw, hend⟩ := ends_of_open h
    refine ⟨tail, ⟨[], List.forall_mem_nil _, ?_⟩, hend⟩
    rw [hw]
    rfl

/-- The open word ends where a blank or nothing comes. -/
theorem scan_breaks (u : Open) {tail : List Char} (h : Breaks tail) :
    scan none (some u) tail = before (.ok (flush (some u))) (scan none none tail) := by
  cases tail with
  | nil => simp [scan, before, Except.map, flush]
  | cons c tail =>
    rw [scan_blank (h c rfl), scan_blank (h c rfl), before_before]
    rfl

/-- A word at the start of a text that ends at a blank is the first token, and what stands behind it
is read by itself. -/
theorem exists_scan_tail {tail : List Char} (h : scan none none cs = .ok ts)
    (hb : Begins cs w.toList tail) (hbreak : Breaks tail) (hne : w.toList ≠ [])
    (hbare : ∀ c ∈ w.toList, IsBare c) :
    ∃ rest, ts = .word w false :: rest ∧ scan none none tail = .ok rest := by
  obtain ⟨bs, hblank, rfl⟩ := hb
  rw [scan_blanks hblank, scan_bare_first hne hbare, scan_breaks _ hbreak, flush,
    String.ofList_toList] at h
  obtain ⟨a, rest, ha, hlater, rfl⟩ := before_eq_ok.mp h
  cases ha
  exact ⟨rest, rfl, hlater⟩

/-- A word without quotes that is read in a stage needs none. -/
theorem bare_of_mem {stage : String} (h : ofStage stage = .ok ts) (hmem : .word w false ∈ ts) :
    w.toList ≠ [] ∧ ∀ c ∈ w.toList, IsBare c := by
  obtain ⟨hne, hbare⟩ := (wellFormed_ofStage h _ hmem).1 rfl
  exact ⟨mt String.toList_eq_nil_iff.mp hne, hbare⟩

/-- A word is the one that a command begins with: all words before it stand behind operators, and it
does not. -/
structure IsCommandWord (before : List Token) (w : String) : Prop where
  first : freeWords before = []
  free : freeWords (before ++ [.word w false]) = [w]

end Token

namespace Session

open Text

variable {s : Session} {stage w e : String} {tail : List Char} {es before after : List Token}

/-- A word stands alone at the start of a stage: nothing but blanks stands before it, and a blank or
nothing right behind it. -/
def StandsAlone (stage w : String) : Prop := ∃ tail, Begins stage.toList w.toList tail ∧ Breaks tail

/-- An operator stands right behind a word at the start of a stage. -/
def MeetsOperator (stage w : String) : Prop :=
  ∃ c tail, Begins stage.toList w.toList (c :: tail) ∧ (c = '>' ∨ c = '<')

/-- The name that is looked up for a stage stands alone there. -/
theorem expandAlias_setAlias (h : ¬ StandsAlone stage w) (s : Session) (e : String) :
    (s.setAlias w e).expandAlias stage = s.expandAlias stage := by
  unfold expandAlias
  split
  · rfl
  · next word rest hword =>
    have hother : String.ofList word ≠ w := by
      rintro rfl
      refine h ?_
      rw [StandsAlone, String.toList_ofList]
      exact begins_of_firstWord hword
    rw [setAlias, OrderedMap.get?_set, if_neg hother]

/-- For a word that stands alone the tokens of the expansion come in its place. -/
theorem ofStage_expandAlias (hts : Token.ofStage stage = .ok (.word w false :: after))
    (hw : StandsAlone stage w) (he : s.aliases.get? w = some e) (hes : Token.ofStage e = .ok es) :
    Token.ofStage (s.expandAlias stage) = .ok (es ++ after) := by
  obtain ⟨tail, hbegins, hbreak⟩ := hw
  obtain ⟨hne, hbare⟩ := Token.bare_of_mem hts List.mem_cons_self
  have hfirst := firstWord_of_begins hbegins hne (fun c hc => (hbare c hc).no_blank) hbreak
  obtain ⟨rest, hrest, htail⟩ := Token.exists_scan_tail hts hbegins hbreak hne hbare
  obtain ⟨-, rfl⟩ := List.cons.inj hrest
  rw [← Token.scan_trimStart] at htail
  rw [expandAlias, hfirst]
  dsimp only
  rw [String.ofList_toList, he]
  by_cases hnone : trimStart tail = []
  · obtain rfl : after = [] := by
      rw [hnone] at htail
      cases htail
      rfl
    rw [if_pos hnone, List.append_nil]
    exact hes
  · have hline : (e ++ " " ++ String.ofList (trimStart tail)).toList =
        e.toList ++ ' ' :: trimStart tail := by simp
    rw [if_neg hnone]
    dsimp only
    rw [Token.ofStage, hline, Token.scan_append_blank (by decide) hes, htail]
    rfl

/-- If an alias for a word always takes its place, the word stands alone: one that stands for
nothing takes it away. -/
theorem standsAlone_of_replaced (hts : Token.ofStage stage = .ok (before ++ .word w false :: after))
    (h : ∀ (s : Session) e es, s.aliases.get? w = some e → Token.ofStage e = .ok es →
      Token.ofStage (s.expandAlias stage) = .ok (before ++ es ++ after)) : StandsAlone stage w := by
  by_contra hnot
  have hsame := expandAlias_setAlias hnot default ""
  have hplain : (default : Session).expandAlias stage = stage := by
    unfold expandAlias
    split <;> rfl
  have hgone := h (setAlias default w "") "" []
    (by rw [setAlias, OrderedMap.get?_set, if_pos rfl]) rfl
  rw [hsame, hplain, hts, List.append_nil, Except.ok.injEq, List.append_cancel_left_eq] at hgone
  exact List.cons_ne_self _ _ hgone

/-- Before a word that stands alone there is no other token. -/
theorem eq_nil_of_standsAlone (hts : Token.ofStage stage = .ok (before ++ .word w false :: after))
    (hw : Token.IsCommandWord before w) (h : StandsAlone stage w) : before = [] := by
  obtain ⟨tail, hbegins, hbreak⟩ := h
  obtain ⟨hne, hbare⟩ := Token.bare_of_mem hts (List.mem_append_right before List.mem_cons_self)
  obtain ⟨rest, hrest, -⟩ := Token.exists_scan_tail hts hbegins hbreak hne hbare
  cases before with
  | nil => rfl
  | cons t before =>
    obtain ⟨rfl, -⟩ := List.cons.inj hrest
    have hnone := hw.first
    rw [Token.freeWords_word] at hnone
    cases hnone

/-- The word that a command begins with stands alone just if no redirection is written before it,
and no operator right behind it. -/
theorem standsAlone_iff (hts : Token.ofStage stage = .ok (before ++ .word w false :: after))
    (hw : Token.IsCommandWord before w) :
    StandsAlone stage w ↔ before = [] ∧ ¬ MeetsOperator stage w := by
  obtain ⟨hne, hbare⟩ := Token.bare_of_mem hts (List.mem_append_right before List.mem_cons_self)
  constructor
  · intro h
    refine ⟨eq_nil_of_standsAlone hts hw h, ?_⟩
    rintro ⟨c, tail, hbegins, hc⟩
    obtain ⟨tail', hbegins', hbreak⟩ := h
    obtain rfl := hbegins'.unique hbegins hne fun c hc => (hbare c hc).no_blank
    have hblank := hbreak c rfl
    rcases hc with rfl | rfl
    · exact absurd hblank (by decide)
    · exact absurd hblank (by decide)
  · rintro ⟨rfl, hno⟩
    obtain ⟨tail, hbegins, hend⟩ := Token.exists_begins hts
    refine ⟨tail, hbegins, fun c hc => (hend c hc).resolve_right fun hop => hno ?_⟩
    obtain ⟨tail, rfl⟩ := List.head?_eq_some_iff.mp hc
    exact ⟨c, tail, hbegins, hop⟩

/-- Let a command begin with a word without quotes. The tokens of the expansion come in place of
that word, and all other tokens stay, whatever it is an alias for, just if the word stands alone at
the start of the stage. It does just if no redirection is written before it and no operator right
behind it. Where it does not, an alias for it changes nothing. -/
theorem expandAlias_iff_standsAlone
    (hts : Token.ofStage stage = .ok (before ++ .word w false :: after))
    (hw : Token.IsCommandWord before w) :
    ((∀ (s : Session) e es, s.aliases.get? w = some e → Token.ofStage e = .ok es →
        Token.ofStage (s.expandAlias stage) = .ok (before ++ es ++ after)) ↔
          StandsAlone stage w) ∧
      (StandsAlone stage w ↔ before = [] ∧ ¬ MeetsOperator stage w) ∧
      (¬ StandsAlone stage w → ∀ (s : Session) e,
        (s.setAlias w e).expandAlias stage = s.expandAlias stage) := by
  refine ⟨⟨standsAlone_of_replaced hts, fun h => ?_⟩, standsAlone_iff hts hw, expandAlias_setAlias⟩
  obtain rfl := eq_nil_of_standsAlone hts hw h
  intro s e es he hes
  exact ofStage_expandAlias hts h he hes

/-- A redirection further on in the stage stays as it is. -/
theorem replaces_alias_that_stands_alone :
    Token.ofStage (((default : Session).setAlias "ll" "ls -l").expandAlias "ll a>f") =
      .ok [.word "ls" false, .word "-l" false, .word "a" false, .operator .write none,
        .word "f" false] := by
  have hts : Token.ofStage "ll a>f" = .ok ([] ++ .word "ll" false ::
      [.word "a" false, .operator .write none, .word "f" false]) := by decide +kernel
  have halone : StandsAlone "ll a>f" "ll" := by
    refine ⟨" a>f".toList, ⟨[], List.forall_mem_nil _, by decide +kernel⟩, fun c hc => ?_⟩
    obtain rfl : ' ' = c := Option.some.inj hc
    decide
  exact (expandAlias_iff_standsAlone hts ⟨rfl, rfl⟩).1.mpr halone _ "ls -l"
    [.word "ls" false, .word "-l" false] (by decide +kernel) (by decide +kernel)

/-- Right before an operator, or behind a redirection, an alias is overlooked, although the command
begins with it. -/
theorem overlooks_alias_at_redirection :
    ((default : Session).setAlias "hi" "echo hello").aliases.get? "hi" = some "echo hello" ∧
      Token.ofStage "hi>f" =
        .ok ([] ++ .word "hi" false :: [.operator .write none, .word "f" false]) ∧
      Token.IsCommandWord [] "hi" ∧
      ((default : Session).setAlias "hi" "echo hello").expandAlias "hi>f" = "hi>f" ∧
      Token.ofStage "> f hi" =
        .ok ([.operator .write none, .word "f" false] ++ .word "hi" false :: []) ∧
      Token.IsCommandWord [.operator .write none, .word "f" false] "hi" ∧
      ((default : Session).setAlias "hi" "echo hello").expandAlias "> f hi" = "> f hi" :=
  ⟨by decide +kernel, by decide +kernel, ⟨rfl, rfl⟩, by decide +kernel, by decide +kernel,
    ⟨rfl, rfl⟩, by decide +kernel⟩

end Session

end TreeShell
