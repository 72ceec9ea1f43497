import TreeShell.Line.Option
import TreeShell.Proofs.Line.Spelling
import TreeShell.Proofs.OrderedMap

/-!
# Commands as they are written

A command that is written token by token, with one blank between them, is one stage of its line, and
two of them with a bar between them are two. Its first word is the first token; its options, letters
behind single dashes, are set whatever way they are put together, and its arguments stand behind two
dashes.
-/

namespace TreeShell

namespace Line

variable {q : Char} {cs ds text : List Char}

/-! ## Texts that are one stage -/

/-- A text can be a stage as it is: it is not empty, has no blanks at its ends, shows no bar outside
quotes, and leaves none of these open. -/
structure Tidy (cs : List Char) : Prop where
  ne_nil : cs ≠ []
  trimmed : Text.Trimmed cs
  barless : Barless none cs
  closed : openAfter none cs = none

/-- A text without the quote it stands in has no bar outside of quotes, and the quote goes on. -/
theorem within_quotes (h : q ∉ text) :
    Barless (some q) text ∧ openAfter (some q) text = some q := by
  induction text with
  | nil => exact ⟨trivial, rfl⟩
  | cons c text ih =>
    rw [List.mem_cons, not_or] at h
    have hstays : quoteAfter (some q) c = some q := if_neg (Ne.symm h.1)
    rw [Barless, openAfter_cons, hstays]
    exact ⟨⟨fun he => (by cases he), (ih h.2).1⟩, (ih h.2).2⟩

/-- A piece in quotes closes them, and shows no bar. -/
theorem piece_closed (hq : isQuote q = true) (h : q ∉ text) :
    Barless none (q :: (text ++ [q])) ∧ openAfter none (q :: (text ++ [q])) = none := by
  obtain ⟨hbar, hopen⟩ := within_quotes h
  have hfirst : quoteAfter none q = some q := if_pos hq
  have hlast : quoteAfter (some q) q = none := if_pos rfl
  have hne : q ≠ '|' := by
    rintro rfl
    cases hq
  rw [Barless, openAfter_cons, hfirst, barless_append, openAfter_append, hopen, openAfter_cons,
    hlast]
  exact ⟨⟨fun _ => hne, hbar, fun he => (by cases he), trivial⟩, rfl⟩

/-- Two texts that leave no quote open leave none open together. -/
theorem closed_append (ha : Barless none cs ∧ openAfter none cs = none)
    (hb : Barless none ds ∧ openAfter none ds = none) :
    Barless none (cs ++ ds) ∧ openAfter none (cs ++ ds) = none := by
  rw [barless_append, openAfter_append, ha.2]
  exact ⟨⟨ha.1, hb.1⟩, hb.2⟩

/-- Quoted pieces leave no quote open and have no bar outside of quotes. -/
theorem Pieces.closed (h : Pieces text cs) : Barless none cs ∧ openAfter none cs = none := by
  induction h with
  | one hq h => exact piece_closed hq h
  | @cons q text text' cs hq h _ ih =>
    have hall := closed_append (piece_closed hq h) ih
    simpa using hall

/-- Quoted pieces begin and end with a quote. -/
theorem Pieces.ends (h : Pieces text cs) :
    ∃ q q', isQuote q = true ∧ isQuote q' = true ∧ cs.head? = some q ∧ cs.getLast? = some q' := by
  induction h with
  | @one q text hq h =>
    refine ⟨q, q, hq, hq, rfl, ?_⟩
    rw [← List.cons_append, List.getLast?_concat]
  | @cons q text text' cs hq h hrest ih =>
    obtain ⟨-, q', -, hq', -, hlast⟩ := ih
    refine ⟨q, q', hq, hq', rfl, ?_⟩
    have hne : cs ≠ [] := by
      rintro rfl
      cases hlast
    have hcs : q :: (text ++ q :: cs) = (q :: text ++ [q]) ++ cs := by simp
    rw [hcs, List.getLast?_append_of_ne_nil _ hne]
    exact hlast

/-- A quote is no blank. -/
theorem not_isBlank_of_isQuote {c : Char} (h : isQuote c = true) : Text.isBlank c = false := by
  by_contra hblank
  rw [(not_isQuote_of_isBlank (eq_true_of_ne_false hblank)).1] at h
  cases h

/-- Quoted pieces are a tidy text. -/
theorem Pieces.tidy (h : Pieces text cs) : Tidy cs := by
  obtain ⟨q, q', hq, hq', hhead, hlast⟩ := h.ends
  refine ⟨?_, ⟨fun c hc => ?_, fun c hc => ?_⟩, h.closed.1, h.closed.2⟩
  · rintro rfl
    cases hhead
  · rw [hhead] at hc
    cases hc
    exact not_isBlank_of_isQuote hq
  · rw [hlast] at hc
    cases hc
    exact not_isBlank_of_isQuote hq'

/-- Characters that are no blanks, no quotes and no bars. -/
theorem tidy_of_plain (hne : cs ≠ [])
    (h : ∀ c ∈ cs, Text.isBlank c = false ∧ isQuote c = false ∧ c ≠ '|') : Tidy cs := by
  obtain ⟨hbar, hclosed⟩ := barless_of_all fun c hc => (h c hc).2
  exact ⟨hne, ⟨fun c hc => (h c (List.mem_of_head? hc)).1,
    fun c hc => (h c (List.mem_of_getLast? hc)).1⟩, hbar, hclosed⟩

/-- Two texts that can be stages, with a blank between them. -/
theorem Tidy.append_blank (h : Tidy cs) (h' : Tidy ds) : Tidy (cs ++ ' ' :: ds) := by
  have hblank : Barless none [' '] ∧ openAfter none [' '] = none := by
    refine ⟨⟨fun _ => by decide, trivial⟩, rfl⟩
  have hboth := closed_append ⟨h.barless, h.closed⟩ (closed_append hblank ⟨h'.barless, h'.closed⟩)
  have hds : ' ' :: ds ≠ [] := List.cons_ne_nil _ _
  refine ⟨by simp, ⟨fun c hc => h.trimmed.head c ?_, fun c hc => h'.trimmed.last c ?_⟩, hboth.1,
    hboth.2⟩
  · rwa [List.head?_append_of_ne_nil _ h.ne_nil] at hc
  · rw [List.getLast?_append_of_ne_nil _ hds] at hc
    rwa [← List.singleton_append, List.getLast?_append_of_ne_nil _ h'.ne_nil] at hc

/-- Tidy texts with blanks between them are a tidy text. -/
theorem tidy_intercalate {css : List (List Char)} (hne : css ≠ []) (h : ∀ cs ∈ css, Tidy cs) :
    Tidy (List.intercalate [' '] css) := by
  induction css with
  | nil => exact absurd rfl hne
  | cons cs css ih =>
    cases css with
    | nil =>
      rw [List.intercalate_singleton]
      exact h cs List.mem_cons_self
    | cons ds css =>
      rw [List.intercalate_cons_cons, List.append_assoc, List.singleton_append]
      exact (h cs List.mem_cons_self).append_blank
        (ih (List.cons_ne_nil _ _) fun ds hds => h ds (List.mem_cons_of_mem _ hds))

/-- A tidy text is a line of one stage. -/
theorem Tidy.stages {stage : String} (h : Tidy stage.toList) :
    stages (Text.trimmed stage) = [stage] :=
  stages_of_barless h.barless h.trimmed fun he => h.ne_nil (by rw [he]; rfl)

/-- A blank behind a tidy text is cut off again. -/
theorem Tidy.trim_append_blank (h : Tidy cs) : Text.trim (cs ++ [' ']) = cs := by
  have hblank : ∀ b ∈ [' '], Text.isBlank b = true := fun b hb => by
    rw [List.mem_singleton.mp hb]
    decide
  have hstart : Text.trimStart (cs ++ [' ']) = cs ++ [' '] := by
    obtain ⟨c, ds, rfl⟩ := List.exists_cons_of_ne_nil h.ne_nil
    have hc : ¬ Text.isBlank c = true := by simp [h.trimmed.head c rfl]
    rw [Text.trimStart, List.cons_append, List.dropWhile_cons_of_neg hc]
  rw [Text.trim, hstart, Text.trimEnd_append h.trimmed.last h.ne_nil hblank]

/-- A blank in front of a tidy text is cut off again. -/
theorem Tidy.trim_blank_cons (h : Tidy cs) : Text.trim (' ' :: cs) = cs := by
  have hstart : Text.trimStart (' ' :: cs) = Text.trimStart cs :=
    List.dropWhile_cons_of_pos (by decide)
  rw [Text.trim, hstart, ← Text.trim, Text.trim_of_trimmed h.trimmed]

/-- Two texts that can be stages are two stages with a bar between them. -/
theorem Tidy.stages_pair {first second : String} (h : Tidy first.toList)
    (h' : Tidy second.toList) :
    Line.stages (Text.trimmed (first ++ " | " ++ second)) = [first, second] := by
  have hbar : " | ".toList = [' ', '|', ' '] := rfl
  have hchars : (first ++ " | " ++ second).toList =
      (first.toList ++ [' ']) ++ '|' :: ' ' :: second.toList := by
    simp [String.toList_append, hbar]
  have htrimmed : Text.Trimmed (first ++ " | " ++ second).toList := by
    rw [hchars]
    have hlast : '|' :: ' ' :: second.toList = ['|', ' '] ++ second.toList := rfl
    refine ⟨fun c hc => h.trimmed.head c ?_, fun c hc => h'.trimmed.last c ?_⟩
    · rwa [List.append_assoc, List.head?_append_of_ne_nil _ h.ne_nil] at hc
    · rwa [hlast, ← List.append_assoc, List.getLast?_append_of_ne_nil _ h'.ne_nil] at hc
  have hfirst : Barless none (first.toList ++ [' ']) ∧
      openAfter none (first.toList ++ [' ']) = none :=
    closed_append ⟨h.barless, h.closed⟩ ⟨⟨fun _ => by decide, trivial⟩, rfl⟩
  have hsecond : Barless none (' ' :: second.toList) := ⟨fun _ => by decide, h'.barless⟩
  have hfull : first ≠ "" ∧ second ≠ "" :=
    ⟨fun he => h.ne_nil (by rw [he]; rfl), fun he => h'.ne_nil (by rw [he]; rfl)⟩
  rw [Text.trimmed, Text.trim_of_trimmed htrimmed, String.ofList_toList, Line.stages, hchars,
    pieces_append_bar hfirst.1 hfirst.2, pieces_of_barless hsecond, List.map_cons, List.map_cons,
    List.map_nil, h.trim_append_blank, h'.trim_blank_cons]
  simp [hfull, String.ofList_toList]

end Line

/-! ## Tokens with one blank between them -/

namespace Token

open Line

variable {t : Token} {ts : List Token} {cs : List Char} {stage name : String}

/-- A stage is written with some tokens, each in some way, with one blank between them. -/
def Writes (ts : List Token) (stage : String) : Prop :=
  ∃ css, List.Forall₂ Spells ts css ∧ stage.toList = List.intercalate [' '] css

instance (c : Char) : Decidable (IsBare c) :=
  decidable_of_iff (isQuote c = false ∧ c ≠ '>' ∧ c ≠ '<' ∧ Text.isBlank c = false)
    ⟨fun h => ⟨⟨h.1, h.2.1, h.2.2.1⟩, h.2.2.2⟩,
      fun h => ⟨h.no_quote, h.no_output, h.no_input, h.no_blank⟩⟩

instance : (t : Token) → Decidable t.WellFormed
  | .word text quoted =>
    letI : Decidable (∀ c ∈ text.toList, IsBare c) := List.decidableBAll _ _
    inferInstanceAs (Decidable (quoted = false → text ≠ "" ∧ ∀ c ∈ text.toList, IsBare c))
  | .operator _ _ => .isTrue trivial

instance : (t : Token) → Decidable t.Numbered
  | .operator _ (some n) => inferInstanceAs (Decidable (n < 10 ^ Text.maxDigits))
  | .operator _ none => .isTrue trivial
  | .word _ _ => .isTrue trivial

/-- Tokens that can be written are, in the usual way. -/
theorem writes_of_written (hw : ∀ t ∈ ts, t.WellFormed) (hn : ∀ t ∈ ts, t.Numbered)
    (he : writtenAll ts = stage) : Writes ts stage := by
  refine ⟨ts.map fun t => t.written.toList, ?_, ?_⟩
  · rw [List.forall₂_map_right_iff, List.forall₂_same]
    exact fun t ht => spells_written (hw t ht) (hn t ht)
  · rw [← he, writtenAll, Text.join, String.toList_intercalate, List.map_map]
    rfl

/-- What writes tokens is read as these tokens. -/
theorem Writes.ofStage (h : Writes ts stage) : Token.ofStage stage = .ok ts := by
  obtain ⟨css, hspells, hstage⟩ := h
  rw [Token.ofStage, hstage]
  exact scan_spelledAll hspells

/-- An operator has neither blanks nor quotes nor bars. -/
theorem plain_operator (op : Operator) :
    ∀ c ∈ op.text.toList, Text.isBlank c = false ∧ isQuote c = false ∧ c ≠ '|' := by
  have hall : (op.text.toList.all fun c => !Text.isBlank c && !isQuote c && c != '|') = true := by
    cases op <;> decide
  simpa [and_assoc] using hall

/-- A token that is written is a text that can be a stage, if a word without quotes has no bar. -/
theorem Spells.tidy (h : Spells t cs) (hbar : BarlessWords [t]) : Tidy cs := by
  cases h with
  | @bare cs hne h =>
    refine tidy_of_plain hne fun c hc => ⟨(h c hc).no_blank, (h c hc).no_quote, ?_⟩
    rintro rfl
    refine hbar _ List.mem_cons_self ?_
    rwa [String.toList_ofList]
  | quoted h => exact h.tidy
  | operator op => exact tidy_of_plain (by cases op <;> decide) (plain_operator op)
  | @descriptor op cs h =>
    refine tidy_of_plain (by simp [h.ne_nil]) fun c hc => ?_
    rcases List.mem_append.mp hc with hc | hc
    · have hbare := isBare_of_isDecimal (h.decimal c hc)
      refine ⟨hbare.no_blank, hbare.no_quote, ?_⟩
      rintro rfl
      exact absurd (h.decimal '|' hc) (by decide)
    · exact plain_operator op c hc

/-- What writes tokens whose words have no bar outside of quotes is a tidy text. -/
theorem Writes.tidy (h : Writes ts stage) (hne : ts ≠ []) (hbar : BarlessWords ts) :
    Tidy stage.toList := by
  obtain ⟨css, hspells, hstage⟩ := h
  rw [hstage]
  refine tidy_intercalate ?_ ?_
  · rintro rfl
    cases hspells
    exact hne rfl
  · clear hstage hne
    induction hspells with
    | nil => exact fun cs hcs => by cases hcs
    | @cons t cs ts css hfirst _ ih =>
      refine List.forall_mem_cons.mpr ⟨hfirst.tidy fun text htext => hbar text ?_,
        ih fun text htext => hbar text (List.mem_cons_of_mem _ htext)⟩
      exact List.mem_singleton.mp htext ▸ List.mem_cons_self

/-- The first word of a stage is its first token. -/
theorem Writes.firstWord (h : Writes (.word name false :: ts) stage) :
    ∃ rest, Text.firstWord stage.toList = some (name.toList, rest) := by
  obtain ⟨css, hspells, hstage⟩ := h
  cases hspells with
  | @cons _ cs _ css hfirst hrest =>
    cases hfirst with
    | bare hne hbare =>
      rw [String.toList_ofList]
      have hfull : ∀ c ∈ cs, Text.isBlank c = false := fun c hc => (hbare c hc).no_blank
      have hbegins : ∃ tail, Text.Begins stage.toList cs tail ∧ Text.Breaks tail := by
        rw [hstage]
        cases css with
        | nil =>
          rw [List.intercalate_singleton]
          exact ⟨[], ⟨[], List.forall_mem_nil _, (List.append_nil _).symm⟩, fun c hc => by cases hc⟩
        | cons ds css =>
          rw [List.intercalate_cons_cons, List.append_assoc, List.singleton_append]
          refine ⟨_, ⟨[], List.forall_mem_nil _, rfl⟩, fun c hc => ?_⟩
          cases hc
          decide
      obtain ⟨tail, hstart, hbreak⟩ := hbegins
      exact ⟨_, Text.firstWord_of_begins hstart hne hfull hbreak⟩

/-- Words in front of other tokens. -/
theorem ofTokens_append_words (words : List (String × Bool)) (rest : List Token) :
    Parts.ofTokens (words.map (fun w => .word w.1 w.2) ++ rest) =
      (Parts.ofTokens rest).map fun p => { p with words := words.map Prod.fst ++ p.words } := by
  induction words with
  | nil => cases hrest : Parts.ofTokens rest <;> simp [hrest, Except.map]
  | cons w words ih =>
    rw [List.map_cons, List.cons_append, Parts.ofTokens, ih]
    cases Parts.ofTokens rest <;> rfl

end Token

/-! ## Options -/

namespace Options

variable {c : Char} {letters : List (List Char)} {rest : List String}

/-- A word of options: letters behind a dash. -/
def word (letters : List Char) : String := String.ofList ('-' :: letters)

/-- Letters that are set in words of options: some in each word, and all of some. -/
def Letters (allowed : List Char) (letters : List (List Char)) : Prop :=
  ∀ cs ∈ letters, cs ≠ [] ∧ ∀ c ∈ cs, c ∈ allowed

/-- Letters that may be given hold no dash if none of them is one. -/
theorem Letters.no_dash {allowed : List Char} (h : Letters allowed letters)
    (hdash : '-' ∉ allowed) : ∀ cs ∈ letters, cs ≠ [] ∧ '-' ∉ cs :=
  fun cs hcs => ⟨(h cs hcs).1, fun hmem => hdash ((h cs hcs).2 _ hmem)⟩

/-- Options with some letters set. -/
def setAll (options : Options) (letters : List (List Char)) : Options :=
  letters.foldl setLetters options

/-- Words of options come first, and what stands behind two dashes are arguments. -/
theorem sortFrom_words (options : Options) (h : ∀ cs ∈ letters, cs ≠ [] ∧ '-' ∉ cs)
    (rest : List String) :
    sortFrom options (letters.map word ++ rest) = sortFrom (options.setAll letters) rest := by
  induction letters generalizing options with
  | nil => rfl
  | cons cs letters ih =>
    obtain ⟨⟨hne, hdash⟩, hrest⟩ := List.forall_mem_cons.mp h
    obtain ⟨c, cs, rfl⟩ := List.exists_cons_of_ne_nil hne
    have hc : c ≠ '-' := fun he => hdash (he ▸ List.mem_cons_self)
    have hword : (word (c :: cs)).toList = '-' :: c :: cs := String.toList_ofList
    rw [List.map_cons, List.cons_append, sortFrom, hword]
    have hstep : sortFrom (options.setLetters (c :: cs)) (letters.map word ++ rest) =
        sortFrom (options.setAll ((c :: cs) :: letters)) rest := ih _ hrest
    rw [← hstep]
    split
    · next he => exact absurd (List.cons.inj (List.cons.inj he).2).1 hc
    · next he => exact absurd (List.cons.inj (List.cons.inj he).2).1 hc
    · next he =>
      cases he
      rfl
    · next h3 => exact absurd rfl (h3 c cs)

/-- Groups of letters are options up to the two dashes, and what follows is given back as it is. -/
theorem sort_words_dashes (h : ∀ cs ∈ letters, cs ≠ [] ∧ '-' ∉ cs) (rest : List String) :
    sort (letters.map word ++ "--" :: rest) = (rest, setAll ∅ letters) := by
  rw [sort, sortFrom_words ∅ h, sortFrom]
  rfl

/-- Groups of letters alone are options, and no words are left. -/
theorem sort_words (h : ∀ cs ∈ letters, cs ≠ [] ∧ '-' ∉ cs) :
    sort (letters.map word) = ([], setAll ∅ letters) := by
  have hwords := sortFrom_words ∅ h []
  rw [List.append_nil] at hwords
  exact hwords

/-- A group of letters sets each of its letters and no other option. -/
theorem get?_setLetters (options : Options) (cs : List Char) (c : Char) :
    (options.setLetters cs).get? c.toString =
      if c ∈ cs then some .flag else options.get? c.toString := by
  induction cs generalizing options with
  | nil => rfl
  | cons d cs ih =>
    have hset := OrderedMap.get?_set options d.toString c.toString OptionValue.flag
    have hsame : c.toString = d.toString ↔ c = d := by
      simp [Char.toString_eq_singleton, String.singleton_inj]
    rw [setLetters, List.foldl_cons, ← setLetters, ih, hset]
    simp only [hsame, List.mem_cons]
    by_cases hd : c = d
    · simp [hd]
    · simp [hd]

/-- A letter is set just if it is one of the letters. -/
theorem get?_setAll (options : Options) (letters : List (List Char)) (c : Char) :
    (options.setAll letters).get? c.toString =
      if c ∈ letters.flatten then some .flag else options.get? c.toString := by
  induction letters generalizing options with
  | nil => rfl
  | cons cs letters ih =>
    rw [setAll, List.foldl_cons, ← setAll, ih, get?_setLetters, List.flatten_cons]
    by_cases hc : c ∈ cs
    · simp [hc]
    · simp [hc]

end Options

end TreeShell
