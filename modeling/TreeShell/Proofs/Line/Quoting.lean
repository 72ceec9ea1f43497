import TreeShell.Line.Pipeline
import TreeShell.Proofs.Line.Numerals
import TreeShell.Text.Cut

/-!
# Quotes in lines and in stages

A line is cut at its bars by a scan that looks at every character, and each stage is then scanned
into tokens after the blanks around it are gone. Both agree on where quotes open and close: only the
last stage can be refused for a quote that is never closed, and it is just if the line ends inside
one; no bar outside quotes gets into a word; and the stages, joined by bars again, are cut into
themselves.
-/

namespace TreeShell

/-! ## Texts without blanks at the ends -/

namespace Text

variable {c : Char} {cs : List Char}

/-- A text neither begins nor ends with a blank. -/
structure Trimmed (cs : List Char) : Prop where
  head : ∀ c, cs.head? = some c → isBlank c = false
  last : ∀ c, cs.getLast? = some c → isBlank c = false

/-- What is cut off in front is blank. -/
theorem exists_append_trimStart (cs : List Char) :
    ∃ bs, (∀ b ∈ bs, isBlank b = true) ∧ cs = bs ++ trimStart cs :=
  ⟨cs.takeWhile isBlank, fun _ hb => List.mem_takeWhile_imp hb,
    List.takeWhile_append_dropWhile.symm⟩

/-- Nothing is left of blanks. -/
theorem trimEnd_eq_nil (h : ∀ c ∈ cs, isBlank c = true) : trimEnd cs = [] := by
  induction cs with
  | nil => rfl
  | cons c cs ih =>
    have hrest := ih fun c' hc' => h c' (List.mem_cons_of_mem c hc')
    rw [trimEnd, hrest]
    dsimp only
    rw [if_pos (h c List.mem_cons_self)]

/-- Blanks behind a text that ends with none are cut off, and nothing else. -/
theorem trimEnd_append (h : ∀ c, cs.getLast? = some c → isBlank c = false) (hne : cs ≠ [])
    {bs : List Char} (hb : ∀ b ∈ bs, isBlank b = true) : trimEnd (cs ++ bs) = cs := by
  induction cs with
  | nil => exact absurd rfl hne
  | cons c cs ih =>
    rw [List.cons_append, trimEnd]
    cases cs with
    | nil =>
      have hc : ¬ isBlank c = true := by simp [h c rfl]
      rw [List.nil_append, trimEnd_eq_nil hb]
      dsimp only
      rw [if_neg hc]
    | cons d cs => rw [ih (fun c' hc' => h c' hc') (List.cons_ne_nil d cs)]

/-- A text ends with the blanks that are taken away there, and what is left does not. -/
theorem exists_trimEnd_append (cs : List Char) :
    ∃ bs, (∀ b ∈ bs, isBlank b = true) ∧ cs = trimEnd cs ++ bs ∧
      ∀ c, (trimEnd cs).getLast? = some c → isBlank c = false := by
  induction cs with
  | nil => exact ⟨[], by simp, rfl, by simp [trimEnd]⟩
  | cons c cs ih =>
    obtain ⟨bs, hb, hcs, hlast⟩ := ih
    rw [trimEnd]
    cases ht : trimEnd cs with
    | nil =>
      rw [ht, List.nil_append] at hcs
      dsimp only
      split
      · next hc =>
        refine ⟨c :: bs, List.forall_mem_cons.mpr ⟨hc, hb⟩, by rw [List.nil_append, ← hcs], ?_⟩
        simp
      · next hc =>
        refine ⟨bs, hb, by rw [hcs]; rfl, fun d hd => ?_⟩
        rw [← Option.some.inj hd]
        simpa using hc
    | cons d ds =>
      rw [ht] at hcs hlast
      dsimp only
      exact ⟨bs, hb, by rw [hcs]; rfl, hlast⟩

/-- Nothing is cut off a text that has been trimmed. -/
theorem trim_of_trimmed (h : Trimmed cs) : trim cs = cs := by
  have hstart : trimStart cs = cs := by
    cases cs with
    | nil => rfl
    | cons c cs =>
      have hc : ¬ isBlank c = true := by simp [h.head c rfl]
      rw [trimStart, List.dropWhile_cons_of_neg hc]
  rw [trim, hstart]
  by_cases hne : cs = []
  · rw [hne]
    rfl
  · have hend := trimEnd_append h.last hne (List.forall_mem_nil (isBlank · = true))
    rwa [List.append_nil] at hend

/-- A text is what is left of it without the blanks at its ends, between blanks. -/
theorem exists_trim (cs : List Char) :
    ∃ bs bs', (∀ b ∈ bs, isBlank b = true) ∧ (∀ b ∈ bs', isBlank b = true) ∧
      cs = bs ++ (trim cs ++ bs') ∧ Trimmed (trim cs) := by
  obtain ⟨bs, hb, hcs⟩ := exists_append_trimStart cs
  obtain ⟨bs', hb', hstart, hlast⟩ := exists_trimEnd_append (trimStart cs)
  refine ⟨bs, bs', hb, hb', ?_, fun c hc => ?_, hlast⟩
  · rw [trim, ← hstart]
    exact hcs
  · have hhead : (trimStart cs).head? = some c := by
      rw [trim] at hc
      rw [hstart]
      cases ht : trimEnd (trimStart cs) with
      | nil =>
        rw [ht] at hc
        cases hc
      | cons d ds =>
        rw [ht] at hc
        exact hc
    have hnot := List.head?_dropWhile_not isBlank cs
    rw [← trimStart, hhead] at hnot
    exact hnot

/-- A trimmed text neither begins nor ends with a blank. -/
theorem trimmed_trim (cs : List Char) : Trimmed (trim cs) := by
  obtain ⟨-, -, -, -, -, h⟩ := exists_trim cs
  exact h

end Text

/-! ## The word at the start of a text -/

namespace Text

variable {cs word tail tail' : List Char}

/-- Nothing but blanks stands before a word, and some text behind it. -/
def Begins (cs word tail : List Char) : Prop :=
  ∃ bs, (∀ b ∈ bs, isBlank b = true) ∧ cs = bs ++ (word ++ tail)

/-- A blank or nothing comes first. -/
def Breaks (tail : List Char) : Prop := ∀ c, tail.head? = some c → isBlank c = true

/-- Where a text begins with a word, the word is what is left in front. -/
theorem trimStart_of_begins (h : Begins cs word tail) (hne : word ≠ [])
    (hfull : ∀ c ∈ word, isBlank c = false) : trimStart cs = word ++ tail := by
  obtain ⟨bs, hb, rfl⟩ := h
  obtain ⟨c, word, rfl⟩ := List.exists_cons_of_ne_nil hne
  have hc : ¬ isBlank c = true := by simp [hfull c List.mem_cons_self]
  rw [trimStart, List.dropWhile_append_of_pos hb, List.cons_append, List.dropWhile_cons_of_neg hc]

/-- What follows the first word of a text is told by the text and the word. -/
theorem Begins.unique (h : Begins cs word tail) (h' : Begins cs word tail') (hne : word ≠ [])
    (hfull : ∀ c ∈ word, isBlank c = false) : tail = tail' := by
  have hsame := trimStart_of_begins h hne hfull
  rw [trimStart_of_begins h' hne hfull] at hsame
  exact (List.append_cancel_left hsame).symm

/-- A word at the start of a text is its first one if it ends where a blank or nothing comes. -/
theorem firstWord_of_begins (h : Begins cs word tail) (hne : word ≠ [])
    (hfull : ∀ c ∈ word, isBlank c = false) (hbreak : Breaks tail) :
    firstWord cs =
      some (word, if trimStart tail = [] then none else some (trimStart tail)) := by
  have hword : ∀ c ∈ word, (!isBlank c) = true := fun c hc => by simp [hfull c hc]
  have hends : tail.takeWhile (fun c => !isBlank c) = [] ∧
      tail.dropWhile (fun c => !isBlank c) = tail := by
    cases tail with
    | nil => exact ⟨rfl, rfl⟩
    | cons c tail =>
      have hc : ¬ (!isBlank c) = true := by simp [hbreak c rfl]
      exact ⟨List.takeWhile_cons_of_neg hc, List.dropWhile_cons_of_neg hc⟩
  have htake : (word ++ tail).takeWhile (fun c => !isBlank c) = word := by
    rw [List.takeWhile_append_of_pos hword, hends.1, List.append_nil]
  have hdrop : (word ++ tail).dropWhile (fun c => !isBlank c) = tail := by
    rw [List.dropWhile_append_of_pos hword, hends.2]
  rw [firstWord, trimStart_of_begins h hne hfull]
  split
  · next he => exact absurd (List.append_eq_nil_iff.mp he).1 hne
  · rw [htake, hdrop]
    cases trimStart tail <;> rfl

/-- The first word of a text stands at its start, and ends where a blank or nothing comes. -/
theorem begins_of_firstWord {rest : Option (List Char)} (h : firstWord cs = some (word, rest)) :
    ∃ tail, Begins cs word tail ∧ Breaks tail := by
  obtain ⟨bs, hb, hcs⟩ := exists_append_trimStart cs
  have hword : word = (trimStart cs).takeWhile fun c => !isBlank c := by
    unfold firstWord at h
    split at h
    · cases h
    · split at h <;> cases h <;> rfl
  refine ⟨(trimStart cs).dropWhile fun c => !isBlank c, ⟨bs, hb, ?_⟩, fun c hc => ?_⟩
  · rw [hword, List.takeWhile_append_dropWhile]
    exact hcs
  · have hnot := List.head?_dropWhile_not (fun c => !isBlank c) (trimStart cs)
    rw [hc] at hnot
    simpa using hnot

end Text

/-! ## Bars outside quotes -/

namespace Line

open Text

variable {open? end? : Option Char} {c : Char} {cs a b : List Char}

/-- The quote that is open after a text, from the one that was open before it. -/
def openAfter (open? : Option Char) (cs : List Char) : Option Char := cs.foldl quoteAfter open?

/-- The quote that is open at the end of a line. -/
def openQuote? (line : String) : Option Char := openAfter none line.toList

/-- No bar of a text stands outside quotes. -/
def Barless : Option Char → List Char → Prop
  | _, [] => True
  | open?, c :: cs => (open? = none → c ≠ '|') ∧ Barless (quoteAfter open? c) cs

theorem openAfter_cons : openAfter open? (c :: cs) = openAfter (quoteAfter open? c) cs := rfl

/-- The quotes of a text are read part by part. -/
theorem openAfter_append : openAfter open? (a ++ b) = openAfter (openAfter open? a) b :=
  List.foldl_append

/-- A text has no bar outside of quotes just if its parts have none, the later one with the quote
that the earlier one leaves open. -/
theorem barless_append :
    Barless open? (a ++ b) ↔ Barless open? a ∧ Barless (openAfter open? a) b := by
  induction a generalizing open? with
  | nil => simp [Barless, openAfter]
  | cons c a ih => rw [List.cons_append, Barless, Barless, ih, and_assoc, openAfter_cons]

/-- No blank is a quote or a bar. -/
theorem not_isQuote_of_isBlank (h : isBlank c = true) : isQuote c = false ∧ c ≠ '|' := by
  have hquotes : isBlank '\'' = false ∧ isBlank '"' = false ∧ isBlank '|' = false := by decide
  refine ⟨?_, ?_⟩
  · rw [isQuote, Bool.or_eq_false_iff, beq_eq_false_iff_ne, beq_eq_false_iff_ne]
    refine ⟨?_, ?_⟩
    · rintro rfl
      rw [hquotes.1] at h
      cases h
    · rintro rfl
      rw [hquotes.2.1] at h
      cases h
  · rintro rfl
    rw [hquotes.2.2] at h
    cases h

/-- Nothing but a quote is ever open after a character. -/
theorem isQuote_quoteAfter (h : ∀ q, open? = some q → isQuote q = true) {q : Char}
    (hq : quoteAfter open? c = some q) : isQuote q = true := by
  unfold quoteAfter at hq
  split at hq
  · split at hq
    · cases hq
    · exact h q hq
  · split at hq
    · next hc => rw [← Option.some.inj hq, hc]
    · cases hq

/-- Nothing but a quote is ever open after a text. -/
theorem isQuote_openAfter (h : ∀ q, open? = some q → isQuote q = true) {q : Char}
    (hq : openAfter open? cs = some q) : isQuote q = true := by
  induction cs generalizing open? with
  | nil => exact h q hq
  | cons c cs ih => exact ih (fun q' hq' => isQuote_quoteAfter h hq') hq

/-- Blanks neither open nor close a quote. -/
theorem openAfter_blanks (h : ∀ q, open? = some q → isQuote q = true)
    (hb : ∀ c ∈ cs, isBlank c = true) : openAfter open? cs = open? := by
  induction cs with
  | nil => rfl
  | cons c cs ih =>
    obtain ⟨hc, hrest⟩ := List.forall_mem_cons.mp hb
    have hquote := (not_isQuote_of_isBlank hc).1
    have hfirst : quoteAfter open? c = open? := by
      unfold quoteAfter
      split
      · next q =>
        have hne : c ≠ q := fun he => by rw [he, h q rfl] at hquote; cases hquote
        rw [if_neg hne]
      · rw [hquote]
        rfl
    rw [openAfter_cons, hfirst, ih hrest]

/-- What blanks around a text do to its quotes and bars: nothing. -/
theorem openAfter_trim (cs : List Char) : openAfter none (trim cs) = openAfter none cs := by
  obtain ⟨bs, bs', hb, hb', hcs, -⟩ := exists_trim cs
  have hnone : ∀ q, (none : Option Char) = some q → isQuote q = true := fun q hq => by cases hq
  have hall := congrArg (openAfter none) hcs
  rw [openAfter_append, openAfter_append, openAfter_blanks hnone hb,
    openAfter_blanks (fun q hq => isQuote_openAfter hnone hq) hb'] at hall
  exact hall.symm

/-- Trimming brings no bar out of its quotes. -/
theorem barless_trim (h : Barless none cs) : Barless none (trim cs) := by
  obtain ⟨bs, bs', hb, hb', hcs, -⟩ := exists_trim cs
  rw [hcs, barless_append, barless_append, openAfter_blanks (fun q hq => by cases hq) hb] at h
  exact h.2.1

/-! ## Pieces -/

/-- There is at least one stage in any text. -/
theorem pieces_ne_nil (open? : Option Char) (cs : List Char) : pieces open? cs ≠ [] := by
  unfold pieces
  split
  · simp
  · simp
  · split
    · simp
    · simp

/-- A character that is no bar outside of quotes belongs to the stage that is open. -/
theorem pieces_cons (h : open? = none → c ≠ '|') :
    pieces open? (c :: cs) = (pieces (quoteAfter open? c) cs).modifyHead (c :: ·) := by
  rw [pieces]
  · split
    · next hnil => exact absurd hnil (pieces_ne_nil _ _)
    · next hpieces => rw [hpieces, List.modifyHead_cons]
  · exact fun ho hc => h ho hc

/-- A text without a bar outside of quotes is one stage. -/
theorem pieces_of_barless (h : Barless open? cs) : pieces open? cs = [cs] := by
  induction cs generalizing open? with
  | nil => simp [pieces]
  | cons c cs ih => rw [pieces_cons h.1, ih h.2, List.modifyHead_cons]

/-- The first bar outside quotes ends the first piece. -/
theorem pieces_append_bar (ha : Barless open? a) (ho : openAfter open? a = none) (b : List Char) :
    pieces open? (a ++ '|' :: b) = a :: pieces none b := by
  induction a generalizing open? with
  | nil =>
    obtain rfl : open? = none := ho
    rfl
  | cons c a ih =>
    rw [List.cons_append, pieces_cons ha.1, ih ha.2 ho, List.modifyHead_cons]

/-- A text has no bar outside quotes, or a first one. -/
theorem barless_or_bar (open? : Option Char) (cs : List Char) :
    Barless open? cs ∨
      ∃ a b, cs = a ++ '|' :: b ∧ Barless open? a ∧ openAfter open? a = none := by
  induction cs generalizing open? with
  | nil => exact Or.inl trivial
  | cons c cs ih =>
    by_cases hbar : open? = none ∧ c = '|'
    · obtain ⟨rfl, rfl⟩ := hbar
      exact Or.inr ⟨[], cs, rfl, trivial, rfl⟩
    · have hfirst : open? = none → c ≠ '|' := fun ho hc => hbar ⟨ho, hc⟩
      rcases ih (quoteAfter open? c) with h | ⟨a, b, rfl, ha, ho⟩
      · exact Or.inl ⟨hfirst, h⟩
      · exact Or.inr ⟨c :: a, b, rfl, ⟨hfirst, ha⟩, ho⟩

/-- Pieces of a line at whose end a quote is open, if one is: no bar of them stands outside quotes,
and only the last may leave a quote open. -/
inductive Cut : Option Char → List (List Char) → Prop where
  | nil : Cut none []
  | last {cs : List Char} (hb : Barless none cs) : Cut (openAfter none cs) [cs]
  | cons {end? : Option Char} {cs : List Char} {rest : List (List Char)} (hb : Barless none cs)
    (ho : openAfter none cs = none) (h : Cut end? rest) : Cut end? (cs :: rest)

/-- The stages of a text are cut out of it as they should be. -/
theorem cut_pieces (cs : List Char) : Cut (openAfter none cs) (pieces none cs) := by
  -- the piece behind the first bar is shorter than the text
  induction hn : cs.length using Nat.strong_induction_on generalizing cs with
  | _ n ih =>
    rcases barless_or_bar none cs with hb | ⟨a, b, rfl, ha, ho⟩
    · rw [pieces_of_barless hb]
      exact .last hb
    · have hlt : b.length < n := by
        rw [← hn, List.length_append, List.length_cons]
        omega
      have hbar : quoteAfter none '|' = none := rfl
      rw [pieces_append_bar ha ho, openAfter_append, ho, openAfter_cons, hbar]
      exact .cons ha ho (ih b.length hlt b rfl)

/-- The blanks around the pieces, and the pieces that are blank, do not matter. -/
theorem Cut.trim {ps : List (List Char)} (h : Cut end? ps) :
    Cut end? ((ps.map Text.trim).filter fun cs => !cs.isEmpty) := by
  induction h with
  | nil => exact .nil
  | @last cs hb =>
    rw [← openAfter_trim cs]
    cases ht : Text.trim cs with
    | nil => simpa [ht, openAfter] using Cut.nil
    | cons c rest => simpa [ht] using Cut.last (ht ▸ barless_trim hb)
  | @cons end? cs rest hb ho _ ih =>
    rw [← openAfter_trim cs] at ho
    cases ht : Text.trim cs with
    | nil => simpa [ht] using ih
    | cons c rest' => simpa [ht] using Cut.cons (ht ▸ barless_trim hb) (ht ▸ ho) ih

/-- No stage has a bar outside of quotes. -/
theorem Cut.barless {ps : List (List Char)} (h : Cut end? ps) : ∀ p ∈ ps, Barless none p := by
  induction h with
  | nil => simp
  | last hb => simpa using hb
  | cons hb _ _ ih => exact List.forall_mem_cons.mpr ⟨hb, ih⟩

/-- Only the last piece may leave a quote open, and that is open at the end. -/
theorem Cut.open_last {ps : List (List Char)} {i : Nat} {p : List Char} (h : Cut end? ps)
    (hp : ps[i]? = some p) (ho : openAfter none p ≠ none) :
    i + 1 = ps.length ∧ openAfter none p = end? := by
  induction h generalizing i with
  | nil => cases hp
  | @last cs hb =>
    cases i with
    | zero =>
      cases hp
      exact ⟨rfl, rfl⟩
    | succ i => cases hp
  | cons hb hclosed _ ih =>
    cases i with
    | zero =>
      cases hp
      exact absurd hclosed ho
    | succ i =>
      obtain ⟨hi, hend⟩ := ih hp
      exact ⟨by rw [List.length_cons, ← hi], hend⟩

/-- A quote that is open at the end is open in the last stage. -/
theorem Cut.getLast? {ps : List (List Char)} (h : Cut end? ps) (he : end? ≠ none) :
    ∃ p, ps.getLast? = some p ∧ openAfter none p = end? := by
  induction h with
  | nil => exact absurd rfl he
  | @last cs hb => exact ⟨cs, rfl, rfl⟩
  | cons hb ho hrest ih =>
    obtain ⟨p, hp, hend⟩ := ih he
    exact ⟨p, by rw [List.getLast?_cons, hp]; rfl, hend⟩

/-- Pieces that are joined by bars are cut into themselves. -/
theorem Cut.pieces_intercalate {ps : List (List Char)} (h : Cut end? ps) (hne : ps ≠ []) :
    pieces none (List.intercalate ['|'] ps) = ps := by
  induction h with
  | nil => exact absurd rfl hne
  | last hb => rw [List.intercalate_singleton, pieces_of_barless hb]
  | @cons end? cs rest hb ho hrest ih =>
    cases rest with
    | nil => rw [List.intercalate_singleton, pieces_of_barless hb]
    | cons p rest =>
      rw [List.intercalate_cons_cons, List.append_assoc, List.singleton_append,
        pieces_append_bar hb ho, ih (List.cons_ne_nil p rest)]

end Line

/-! ## Tokens -/

namespace Token

open Line

variable {open? end? : Option Char} {cs : List Char} {ts : List Token}

/-- Tokens in front of others succeed just if both do. -/
theorem before_eq_ok {found later : Except LineError (List Token)} :
    before found later = .ok ts ↔ ∃ a b, found = .ok a ∧ later = .ok b ∧ ts = a ++ b := by
  constructor
  · intro h
    cases found with
    | error e => cases h
    | ok a =>
      cases later with
      | error e => cases h
      | ok b =>
        cases h
        exact ⟨a, b, rfl, rfl, rfl⟩
  · rintro ⟨a, b, rfl, rfl, rfl⟩
    rfl

/-- Tokens are put in front one group after another. -/
theorem before_before (a b : List Token) (later : Except LineError (List Token)) :
    before (.ok a) (before (.ok b) later) = before (.ok (a ++ b)) later := by
  cases later with
  | error e => rfl
  | ok ts => simp [before, Except.map]

/-- A blank ends the word before it. -/
theorem scan_blank {c : Char} (h : Text.isBlank c = true) (w : Option Open) (cs : List Char) :
    scan none w (c :: cs) = before (.ok (flush w)) (scan none none cs) := by
  have hquote : ¬ isQuote c = true := by simp [(not_isQuote_of_isBlank h).1]
  have hoperators : Text.isBlank '>' = false ∧ Text.isBlank '<' = false := by decide
  have houtput : c ≠ '>' := fun hc => by rw [hc, hoperators.1] at h; cases h
  have hinput : c ≠ '<' := fun hc => by rw [hc, hoperators.2] at h; cases h
  rw [scan]
  · rw [if_neg hquote, if_pos h]
  · exact fun _ hc => absurd hc houtput
  · exact fun _ hc => absurd hc hinput

/-- A character that is no quote, no blank and no part of an operator goes to the open word. -/
theorem scan_push {c : Char} (hquote : isQuote c = false) (hblank : Text.isBlank c = false)
    (houtput : c ≠ '>') (hinput : c ≠ '<') (w : Option Open) (cs : List Char) :
    scan none w (c :: cs) = scan none (Open.push w c) cs := by
  rw [scan]
  · rw [hquote, if_neg Bool.false_ne_true, hblank, if_neg Bool.false_ne_true, if_neg houtput,
      if_neg hinput]
  · exact fun _ hc => absurd hc houtput
  · exact fun _ hc => absurd hc hinput

/-- What is found in a text tells what quote is open at its end: none if there are tokens, and the
one that it is refused for if it is; it may also be refused for digits. -/
def Scanned (end? : Option Char) : Except LineError (List Token) → Prop
  | .ok _ => end? = none
  | .error (.unterminated q) => end? = some q
  | .error (.numeral _) => True
  | .error _ => False

/-- A scan fails for a quote just if what follows does, when what is in front fails for numerals
alone. -/
theorem scanned_before {found later : Except LineError (List Token)}
    (hf : ∀ e, found = .error e → ∃ n, e = .numeral n) (hl : Scanned end? later) :
    Scanned end? (before found later) := by
  cases found with
  | error e =>
    obtain ⟨n, rfl⟩ := hf e rfl
    exact trivial
  | ok ts =>
    cases later with
    | error e => exact hl
    | ok ts' => exact hl

/-- A word in front of an operator is refused for its numeral alone. -/
theorem numeral_of_close {w : Option Open} {op : Operator} {e : LineError}
    (h : close w op = .error e) : ∃ n, e = .numeral n := by
  unfold close at h
  split at h
  · split at h
    · split at h
      · cases h
      · exact ⟨_, (Except.error.inj h).symm⟩
    · cases h
  · cases h

/-- Tokens are found with the quotes that the line was cut with. -/
theorem scanned_scan (open? : Option Char) (w : Option Open) (cs : List Char) :
    Scanned (openAfter open? cs) (scan open? w cs) := by
  have hplain : ∀ {c : Char}, isQuote c = false → quoteAfter none c = none := fun hc => by
    rw [quoteAfter, hc]
    rfl
  fun_induction scan open? w cs with
  | case1 => rfl
  | case2 => rfl
  | case3 w c cs ih =>
    rw [openAfter_cons, quoteAfter, if_pos rfl]
    exact ih
  | case4 q w c cs hc ih =>
    rw [openAfter_cons, quoteAfter, if_neg hc]
    exact ih
  | case5 w cs ih => exact scanned_before (fun _ => numeral_of_close) ih
  | case6 w cs ih => exact scanned_before (fun _ => numeral_of_close) ih
  | case7 w c cs _ _ hc ih =>
    rw [openAfter_cons, quoteAfter, hc]
    exact ih
  | case8 w c cs _ _ hc _ ih =>
    rw [openAfter_cons, hplain (by simpa using hc)]
    exact scanned_before (fun _ he => by cases he) ih
  | case9 w cs _ _ _ _ ih => exact scanned_before (fun _ => numeral_of_close) ih
  | case10 w cs _ _ _ _ _ ih => exact scanned_before (fun _ => numeral_of_close) ih
  | case11 w c cs _ _ hc _ _ _ ih =>
    rw [openAfter_cons, hplain (by simpa using hc)]
    exact ih

/-- Words without quotes hold no bar. -/
def BarlessWords (ts : List Token) : Prop :=
  ∀ text, Token.word text false ∈ ts → '|' ∉ text.toList

/-- An open word holds no bar, unless it was quoted. -/
def Open.Barless : Option Open → Prop
  | some w => w.quoted = false → '|' ∉ w.text
  | none => True

/-- Words of two groups have no bar outside of quotes if those of each have none. -/
theorem barlessWords_append {ts' : List Token} (h : BarlessWords ts) (h' : BarlessWords ts') :
    BarlessWords (ts ++ ts') := fun text hw =>
  (List.mem_append.mp hw).elim (h text) (h' text)

/-- The word that is flushed has no bar if the open one has none. -/
theorem barlessWords_flush {w : Option Open} (h : Open.Barless w) : BarlessWords (flush w) := by
  intro text hw
  cases w with
  | none => cases hw
  | some w =>
    obtain ⟨cs, quoted⟩ := w
    cases List.mem_singleton.mp hw
    rw [String.toList_ofList]
    exact h rfl

/-- The word in front of an operator has no bar if the open one has none. -/
theorem barlessWords_close {w : Option Open} {op : Operator} (h : Open.Barless w)
    (hts : close w op = .ok ts) : BarlessWords ts := by
  have hop : ∀ d, BarlessWords [.operator op d] := fun d text hw => by simp at hw
  unfold close at hts
  split at hts
  · split at hts
    · split at hts
      · cases hts
        exact hop _
      · cases hts
    · cases hts
      exact barlessWords_append (barlessWords_flush h) (hop none)
  · cases hts
    exact hop none

/-- Words put in front of others have no bar if neither group has one. -/
theorem barlessWords_before {found later : Except LineError (List Token)}
    (hf : ∀ ts, found = .ok ts → BarlessWords ts) (hl : ∀ ts, later = .ok ts → BarlessWords ts)
    (hts : before found later = .ok ts) : BarlessWords ts := by
  obtain ⟨a, b, ha, hb, rfl⟩ := before_eq_ok.mp hts
  exact barlessWords_append (hf a ha) (hl b hb)

/-- A character that is no bar leaves the open word without one. -/
theorem barless_push {w : Option Open} {c : Char} (h : Open.Barless w) (hc : c ≠ '|') :
    Open.Barless (Open.push w c) := by
  cases w with
  | none => simpa [Open.push, Open.Barless] using hc.symm
  | some w =>
    intro hquoted hbar
    rcases List.mem_append.mp hbar with hbar | hbar
    · exact h hquoted hbar
    · exact hc (List.mem_singleton.mp hbar).symm

/-- No bar gets into a word without quotes, from a text whose bars are all in quotes. Within quotes
the open word was quoted. -/
theorem barlessWords_scan {w : Option Open} (hb : Line.Barless open? cs) (hw : Open.Barless w)
    (hq : open? ≠ none → ∃ text, w = some ⟨text, true⟩) (hts : scan open? w cs = .ok ts) :
    BarlessWords ts := by
  fun_induction scan open? w cs generalizing ts with
  | case1 => cases hts
  | case2 w =>
    cases hts
    exact barlessWords_flush hw
  | case3 w c cs ih =>
    rw [Line.Barless, quoteAfter, if_pos rfl] at hb
    exact ih hb.2 hw (fun h => absurd rfl h) hts
  | case4 q w c cs hc ih =>
    rw [Line.Barless, quoteAfter, if_neg hc] at hb
    obtain ⟨text, rfl⟩ := hq (by simp)
    exact ih hb.2 (fun h => by cases h) (fun _ => ⟨_, rfl⟩) hts
  | case5 w cs ih =>
    exact barlessWords_before (fun _ => barlessWords_close hw)
      (fun _ => ih hb.2.2 trivial fun h => absurd rfl h) hts
  | case6 w cs ih =>
    exact barlessWords_before (fun _ => barlessWords_close hw)
      (fun _ => ih hb.2.2 trivial fun h => absurd rfl h) hts
  | case7 w c cs _ _ hc ih =>
    rw [Line.Barless, quoteAfter, hc] at hb
    refine ih hb.2 ?_ (fun _ => ?_) hts
    · cases w <;> exact fun h => by cases h
    · cases w with
      | none => exact ⟨[], rfl⟩
      | some w => exact ⟨w.text, rfl⟩
  | case8 w c cs _ _ hc _ ih =>
    rw [Line.Barless, quoteAfter, eq_false_of_ne_true hc] at hb
    refine barlessWords_before (fun _ h => ?_) (fun _ => ih hb.2 trivial fun h => absurd rfl h) hts
    cases h
    exact barlessWords_flush hw
  | case9 w cs _ _ _ _ ih =>
    exact barlessWords_before (fun _ => barlessWords_close hw)
      (fun _ => ih hb.2 trivial fun h => absurd rfl h) hts
  | case10 w cs _ _ _ _ _ ih =>
    exact barlessWords_before (fun _ => barlessWords_close hw)
      (fun _ => ih hb.2 trivial fun h => absurd rfl h) hts
  | case11 w c cs _ _ hc _ _ _ ih =>
    have hbar : c ≠ '|' := hb.1 rfl
    rw [Line.Barless, quoteAfter, eq_false_of_ne_true hc] at hb
    exact ih hb.2 (barless_push hw hbar) (fun h => absurd rfl h) hts

end Token

/-! ## Lines and their stages -/

namespace Line

open Text

variable {line stage : String}

/-- The characters of the stages of a line. -/
def stageTexts (line : String) : List (List Char) :=
  ((pieces none line.toList).map trim).filter fun cs => !cs.isEmpty

/-- The stages are the trimmed texts that are cut out of the line. -/
theorem map_toList_stages (line : String) :
    (stages line).map String.toList = stageTexts line := by
  rw [stages, List.map_map, stageTexts]
  exact (List.map_congr_left fun cs _ => String.toList_ofList).trans (List.map_id _)

/-- The stages of a line are cut out of it as they should be. -/
theorem cut_stageTexts (line : String) : Cut (openQuote? line) (stageTexts line) :=
  (cut_pieces line.toList).trim

/-- A stage is one of the texts that the line is cut into. -/
theorem mem_stageTexts (h : stage ∈ stages line) : stage.toList ∈ stageTexts line :=
  map_toList_stages line ▸ List.mem_map_of_mem h

/-- No stage is blank, or has blanks at its ends. -/
theorem trimmed_of_mem_stages (h : stage ∈ stages line) : stage ≠ "" ∧ Trimmed stage.toList := by
  obtain ⟨hmem, hne⟩ := List.mem_filter.mp (mem_stageTexts h)
  obtain ⟨cs, -, hcs⟩ := List.mem_map.mp hmem
  refine ⟨?_, hcs ▸ trimmed_trim cs⟩
  rintro rfl
  cases hne

/-- The stages of a line, joined with bars, are cut apart again into the same stages. -/
theorem stages_join (line : String) : stages (Text.join "|" (stages line)) = stages line := by
  have hjoin : (Text.join "|" (stages line)).toList = List.intercalate ['|'] (stageTexts line) := by
    rw [Text.join, String.toList_intercalate, map_toList_stages]
    rfl
  have htrim : (stageTexts line).map trim = stageTexts line := by
    refine (List.map_congr_left fun cs hcs => ?_).trans (List.map_id _)
    obtain ⟨cs', -, rfl⟩ := List.mem_map.mp (List.mem_filter.mp hcs).1
    exact trim_of_trimmed (trimmed_trim cs')
  have hfilter : ((stageTexts line).filter fun cs => !cs.isEmpty) = stageTexts line := by
    rw [stageTexts, List.filter_filter]
    simp
  have hsame : stageTexts (Text.join "|" (stages line)) = stageTexts line := by
    by_cases hne : stageTexts line = []
    · rw [hne] at hjoin ⊢
      rw [stageTexts, hjoin]
      rfl
    · rw [stageTexts, hjoin, (cut_stageTexts line).pieces_intercalate hne, htrim, hfilter]
  rw [stages, stages]
  exact congrArg (List.map String.ofList) hsame

/-- How the cutting of a line into stages, and the scan of each stage, agree on quotes. -/
structure QuotesAgree (line : String) : Prop where
  /-- A stage that is refused, and not for its digits, is the last one; it is refused for a quote
  that is never closed, and that is open at the end of the line. -/
  refused : ∀ (i : Nat) (stage : String) (e : LineError), (stages line)[i]? = some stage →
    Token.ofStage stage = .error e → (∀ n, e ≠ .numeral n) →
      i + 1 = (stages line).length ∧ ∃ q, e = .unterminated q ∧ openQuote? line = some q
  /-- If a quote is open at the end of the line, there are no tokens of the last stage. -/
  unfinished : openQuote? line ≠ none → ∃ stage, (stages line).getLast? = some stage ∧
    ∀ ts, Token.ofStage stage ≠ .ok ts
  /-- A word that was not quoted holds no bar. -/
  barless : ∀ stage ∈ stages line, ∀ ts, Token.ofStage stage = .ok ts →
    ∀ text, Token.word text false ∈ ts → '|' ∉ text.toList
  /-- The stages joined by bars are cut into the same stages. -/
  stable : stages (Text.join "|" (stages line)) = stages line
  /-- No stage is empty, or has blanks at its ends. -/
  trimmed : ∀ stage ∈ stages line, stage ≠ "" ∧ Trimmed stage.toList

/-- Whatever line is cut into stages, the stages are scanned with the quotes that it was cut
with. -/
theorem quotes_agree (line : String) : QuotesAgree line where
  refused i stage e hi he hne := by
    have hscanned := Token.scanned_scan none none stage.toList
    rw [← Token.ofStage, he] at hscanned
    have hstage : (stageTexts line)[i]? = some stage.toList := by
      rw [← map_toList_stages, List.getElem?_map, hi]
      rfl
    cases e with
    | numeral n => exact absurd rfl (hne n)
    | unterminated q =>
      have hopen : openAfter none stage.toList = some q := hscanned
      obtain ⟨hlast, hend⟩ := (cut_stageTexts line).open_last hstage (by simp [hopen])
      rw [← map_toList_stages, List.length_map] at hlast
      exact ⟨hlast, q, rfl, hend.symm.trans hopen⟩
    | _ => exact hscanned.elim
  unfinished h := by
    obtain ⟨cs, hcs, hend⟩ := (cut_stageTexts line).getLast? h
    rw [← map_toList_stages, List.getLast?_map, Option.map_eq_some_iff] at hcs
    obtain ⟨stage, hstage, rfl⟩ := hcs
    refine ⟨stage, hstage, fun ts hts => h ?_⟩
    have hscanned := Token.scanned_scan none none stage.toList
    rw [← Token.ofStage, hts] at hscanned
    exact hend.symm.trans hscanned
  barless stage hstage ts hts :=
    Token.barlessWords_scan (w := none) ((cut_stageTexts line).barless _ (mem_stageTexts hstage))
      trivial (fun h => absurd rfl h) hts
  stable := stages_join line
  trimmed _ hstage := trimmed_of_mem_stages hstage

end Line

end TreeShell
