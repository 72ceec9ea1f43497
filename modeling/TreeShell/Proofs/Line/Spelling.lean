import Mathlib.Data.List.Forall2
import TreeShell.Proofs.Line.Literal
import TreeShell.Proofs.Line.Plain

/-!
# How tokens are written

A word that needs no quotes is written as it is, any other text in one or more pieces in quotes, and
an operator with the digits of its descriptor right before it. Tokens that are written in such a
way, with one blank between them, are read back just as they were. What is read in any stage are
tokens that can be written, so to write them and to read them again changes nothing.
-/

namespace TreeShell

namespace Line

variable {c q : Char} {cs text text' : List Char}

/-- A character that can stand in a word without quotes: a plain one that is no blank. -/
structure IsBare (c : Char) : Prop extends IsPlain c where
  no_blank : Text.isBlank c = false

/-- A text in pieces that stand in quotes, one right after another. -/
inductive Pieces : List Char → List Char → Prop where
  /-- A piece between two quotes of a kind that is not in it. -/
  | one {q : Char} {text : List Char} (hq : isQuote q = true) (h : q ∉ text) :
      Pieces text (q :: (text ++ [q]))
  /-- A piece in front of others. -/
  | cons {q : Char} {text text' cs : List Char} (hq : isQuote q = true) (h : q ∉ text)
      (hrest : Pieces text' cs) : Pieces (text ++ text') (q :: (text ++ q :: cs))

/-- Decimal digits are no quotes, no parts of operators and no blanks. -/
theorem isBare_of_isDecimal (h : Text.isDecimal c = true) : IsBare c := by
  have hdigit := Text.isDigit_of_isDecimal h
  have hother : ∀ d : Char, Text.isDigit d = false → c ≠ d := by
    rintro d hd rfl
    rw [hdigit] at hd
    cases hd
  have hquote : isQuote c = false := by
    rw [isQuote, Bool.or_eq_false_iff, beq_eq_false_iff_ne, beq_eq_false_iff_ne]
    exact ⟨hother _ (by decide), hother _ (by decide)⟩
  exact ⟨⟨hquote, hother _ (by decide), hother _ (by decide)⟩, Text.isBlank_of_isDigit hdigit⟩

/-- In single quotes, with the single quotes of its own in double ones, a text is in pieces. The
piece that has begun holds no quote yet. -/
theorem pieces_flatMap_spell (cs : List Char) (hp : '\'' ∉ text) :
    Pieces (text ++ cs) ('\'' :: (text ++ (cs.flatMap spell ++ ['\'']))) := by
  have hsingle : isQuote '\'' = true := rfl
  have hdouble : isQuote '"' = true := rfl
  induction cs generalizing text with
  | nil =>
    rw [List.append_nil]
    exact .one hsingle hp
  | cons c cs ih =>
    by_cases hc : c = '\''
    · subst hc
      have hone : '"' ∉ ['\''] := by decide
      have hquoted := Pieces.cons hsingle hp (Pieces.cons hdouble hone (ih List.not_mem_nil))
      exact hquoted
    · have hnext : '\'' ∉ text ++ [c] := by
        rw [List.mem_append, not_or, List.mem_singleton]
        exact ⟨hp, Ne.symm hc⟩
      have hspell : spell c = [c] := if_neg hc
      have hlonger := ih hnext
      rw [List.append_assoc, List.append_assoc] at hlonger
      rw [List.flatMap_cons, hspell, List.append_assoc]
      exact hlonger

/-- The literal of a text is a quoted piece of it. -/
theorem pieces_literalChars (cs : List Char) : Pieces cs (literalChars cs) :=
  pieces_flatMap_spell cs List.not_mem_nil

end Line

namespace Token

open Line

variable {t : Token} {ts : List Token} {op : Operator} {cs : List Char}

/-! ## Tokens that can be written -/

/-- A word without quotes is not empty, and all of it can stand there as it is. -/
def WellFormed : Token → Prop
  | .word text quoted => quoted = false → text ≠ "" ∧ ∀ c ∈ text.toList, IsBare c
  | .operator _ _ => True

/-- The descriptor of a token, if it has one, can be read. -/
def Numbered : Token → Prop
  | .operator _ (some n) => n < 10 ^ Text.maxDigits
  | _ => True

/-- The ways in which a token can be written. -/
inductive Spells : Token → List Char → Prop where
  /-- A word as it is. -/
  | bare {cs : List Char} (hne : cs ≠ []) (h : ∀ c ∈ cs, IsBare c) :
      Spells (.word (String.ofList cs) false) cs
  /-- A word in quoted pieces. -/
  | quoted {text cs : List Char} (h : Pieces text cs) : Spells (.word (String.ofList text) true) cs
  /-- An operator alone. -/
  | operator (op : Operator) : Spells (.operator op none) op.text.toList
  /-- An operator with decimal digits right before it. -/
  | descriptor (op : Operator) {cs : List Char} (h : Text.IsNumeral cs) :
      Spells (.operator op (some (Text.decimalValue cs))) (cs ++ op.text.toList)

/-- A token as it is written: without quotes if it had none, and with the digits of a number. -/
def written : Token → String
  | .word text false => text
  | .word text true => literal text
  | .operator op none => op.text
  | .operator op (some n) => toString n ++ op.text

/-- Tokens as they are written, with one blank between them. -/
def writtenAll (ts : List Token) : String := Text.join " " (ts.map written)

/-- A token that can be written is. -/
theorem spells_written (hw : t.WellFormed) (hn : t.Numbered) : Spells t t.written.toList := by
  match t, hw, hn with
  | .word text false, hw, _ =>
    obtain ⟨hne, hbare⟩ := hw rfl
    have hspells := Spells.bare (mt String.toList_eq_nil_iff.mp hne) hbare
    rwa [String.ofList_toList] at hspells
  | .word text true, _, _ =>
    have hspells := Spells.quoted (pieces_literalChars text.toList)
    rw [String.ofList_toList] at hspells
    rw [written, literal, String.toList_ofList]
    exact hspells
  | .operator op none, _, _ => exact .operator op
  | .operator op (some n), _, hn =>
    have hspells := Spells.descriptor op (Text.isNumeral_toDigits hn)
    rw [Text.decimalValue_toDigits] at hspells
    rw [written, String.toList_append, Nat.toString_eq_ofList_toDigits, String.toList_ofList]
    exact hspells

/-! ## Reading what is written -/

/-- Characters of a word without quotes go to the open word. -/
theorem scan_bare (h : ∀ c ∈ cs, IsBare c) (text rest : List Char) :
    scan none (some ⟨text, false⟩) (cs ++ rest) = scan none (some ⟨text ++ cs, false⟩) rest := by
  induction cs generalizing text with
  | nil => rw [List.nil_append, List.append_nil]
  | cons c cs ih =>
    obtain ⟨hc, hrest⟩ := List.forall_mem_cons.mp h
    rw [List.cons_append, scan_push hc.no_quote hc.no_blank hc.no_output hc.no_input, Open.push,
      ih hrest, List.append_assoc, List.singleton_append]

/-- Bare characters begin a word that is not quoted. -/
theorem scan_bare_first (hne : cs ≠ []) (h : ∀ c ∈ cs, IsBare c) (rest : List Char) :
    scan none none (cs ++ rest) = scan none (some ⟨cs, false⟩) rest := by
  obtain ⟨c, cs, rfl⟩ := List.exists_cons_of_ne_nil hne
  obtain ⟨hc, hrest⟩ := List.forall_mem_cons.mp h
  rw [List.cons_append, scan_push hc.no_quote hc.no_blank hc.no_output hc.no_input, Open.push,
    scan_bare hrest, List.singleton_append]

/-- Between quotes everything up to the next quote of the kind goes to the open word. -/
theorem scan_within {q : Char} {text : List Char} (h : q ∉ text) (before rest : List Char) :
    scan (some q) (some ⟨before, true⟩) (text ++ q :: rest) =
      scan none (some ⟨before ++ text, true⟩) rest := by
  induction text generalizing before with
  | nil => rw [List.nil_append, scan, if_pos rfl, List.append_nil]
  | cons c text ih =>
    rw [List.mem_cons, not_or] at h
    rw [List.cons_append, scan, if_neg (Ne.symm h.1), Open.push, ih h.2, List.append_assoc,
      List.singleton_append]

/-- The characters of an open word. -/
def Open.chars : Option Open → List Char
  | some w => w.text
  | none => []

/-- A piece in quotes goes to the open word, which is a quoted one from then on. -/
theorem scan_piece {q : Char} {text : List Char} (hq : isQuote q = true) (h : q ∉ text)
    (w : Option Open) (rest : List Char) :
    scan none w (q :: (text ++ q :: rest)) =
      scan none (some ⟨Open.chars w ++ text, true⟩) rest := by
  have hopen : Open.quote w = some ⟨Open.chars w, true⟩ := by cases w <;> rfl
  have hother : ∀ c : Char, isQuote c = false → q ≠ c := by
    rintro c hc rfl
    rw [hq] at hc
    cases hc
  rw [scan, if_pos hq, hopen, scan_within h]
  · exact fun _ hc => absurd hc (hother _ (by decide))
  · exact fun _ hc => absurd hc (hother _ (by decide))

/-- Quoted pieces go on with a word, which counts as quoted. -/
theorem scan_pieces {text : List Char} (h : Pieces text cs) (w : Option Open) (rest : List Char) :
    scan none w (cs ++ rest) = scan none (some ⟨Open.chars w ++ text, true⟩) rest := by
  induction h generalizing w with
  | one hq h =>
    rw [List.cons_append, List.append_assoc, List.singleton_append, scan_piece hq h]
  | cons hq h _ ih =>
    rw [List.cons_append, List.append_assoc, List.cons_append, scan_piece hq h, ih, Open.chars,
      List.append_assoc]

/-- An operator is read as far as it can go on. -/
theorem scan_operator (w : Option Open) (op : Operator) {rest : List Char}
    (h : rest.head? ≠ some '>') :
    scan none w (op.text.toList ++ rest) = before (close w op) (scan none none rest) := by
  have hmore : ∀ cs, rest ≠ '>' :: cs := by
    rintro cs rfl
    exact h rfl
  cases op with
  | append => rfl
  | readWrite => rfl
  | write =>
    have htext : Operator.write.text.toList = ['>'] := rfl
    rw [htext, List.singleton_append, scan]
    · rfl
    · exact fun cs _ hcs => hmore cs hcs
    · exact fun cs hc _ => by cases hc
  | read =>
    have htext : Operator.read.text.toList = ['<'] := rfl
    rw [htext, List.singleton_append, scan]
    · rfl
    · exact fun cs hc _ => by cases hc
    · exact fun cs _ hcs => hmore cs hcs

/-- A numeral right before an operator is its descriptor. -/
theorem scan_numeral (h : Text.IsNumeral cs) (op : Operator) {rest : List Char}
    (hrest : rest.head? ≠ some '>') :
    scan none none (cs ++ (op.text.toList ++ rest)) =
      before (.ok [.operator op (some (Text.decimalValue cs))]) (scan none none rest) := by
  have hclose : close (some ⟨cs, false⟩) op =
      .ok [.operator op (some (Text.decimalValue cs))] := by
    rw [close]
    dsimp only
    rw [h.isDigits, h.readInt]
    rfl
  rw [scan_bare_first h.ne_nil fun c hc => isBare_of_isDecimal (h.decimal c hc),
    scan_operator _ op hrest, hclose]

/-- A token is read back from each of its spellings. -/
theorem scan_spelled (h : Spells t cs) : scan none none cs = .ok [t] := by
  have hnil : ∀ w : Option Open, scan none w [] = .ok (flush w) := fun w => by rw [scan]
  have hend : ([] : List Char).head? ≠ some '>' := by simp
  cases h with
  | bare hne h =>
    have hscan := scan_bare_first hne h []
    rw [List.append_nil, hnil] at hscan
    exact hscan
  | quoted h =>
    have hscan := scan_pieces h none []
    rw [List.append_nil, hnil] at hscan
    exact hscan
  | operator op =>
    have hscan := scan_operator none op hend
    rw [List.append_nil, hnil] at hscan
    exact hscan
  | descriptor op h =>
    have hscan := scan_numeral h op hend
    rw [List.append_nil, hnil] at hscan
    exact hscan

/-! ## Texts one after another -/

/-- Where the tokens of a text end with it, a blank behind it ends nothing more. -/
theorem scan_append_blank {open? : Option Char} {w : Option Open} {c : Char}
    (hc : Text.isBlank c = true) (h : scan open? w cs = .ok ts) (rest : List Char) :
    scan open? w (cs ++ c :: rest) = before (.ok ts) (scan none none rest) := by
  have hmark : c ≠ '>' := by
    rintro rfl
    exact absurd hc (by decide)
  -- what is found for an operator, and then behind it
  have hafter : ∀ {found : Except LineError (List Token)} {cs : List Char} {ts : List Token},
      (∀ {ts'}, scan none none cs = .ok ts' →
        scan none none (cs ++ c :: rest) = before (.ok ts') (scan none none rest)) →
      before found (scan none none cs) = .ok ts →
        before found (scan none none (cs ++ c :: rest)) =
          before (.ok ts) (scan none none rest) := by
    intro found cs ts ih hts
    obtain ⟨a, b, rfl, hb, rfl⟩ := before_eq_ok.mp hts
    rw [ih hb, before_before]
  -- an operator of one character is not made longer
  have hshort : ∀ {cs : List Char}, (∀ cs', cs ≠ '>' :: cs') →
      (cs ++ c :: rest).head? ≠ some '>' := by
    intro cs hcs he
    cases cs with
    | nil => exact hmark (Option.some.inj he)
    | cons d cs => exact hcs cs (by rw [Option.some.inj he])
  fun_induction scan open? w cs generalizing ts with
  | case1 => cases h
  | case2 w =>
    cases h
    exact scan_blank hc w rest
  | case3 w c cs ih =>
    rw [List.cons_append, scan, if_pos rfl]
    exact ih h
  | case4 q w d cs hd ih =>
    rw [List.cons_append, scan, if_neg hd]
    exact ih h
  | case5 w cs ih => exact hafter ih h
  | case6 w cs ih => exact hafter ih h
  | case7 w d cs houtput hinput hd ih =>
    rw [List.cons_append, scan, if_pos hd]
    · exact ih h
    · exact fun cs' hd' he => hshort (fun cs'' => houtput cs'' hd') (congrArg List.head? he)
    · exact fun cs' hd' he => hshort (fun cs'' => hinput cs'' hd') (congrArg List.head? he)
  | case8 w d cs _ _ hquote hd ih =>
    rw [List.cons_append, scan_blank hd]
    exact hafter ih h
  | case9 w cs houtput _ _ _ ih =>
    have hop := scan_operator w .write (hshort fun cs' => houtput cs' rfl)
    exact hop.trans (hafter ih h)
  | case10 w cs _ hinput _ _ _ ih =>
    have hop := scan_operator w .read (hshort fun cs' => hinput cs' rfl)
    exact hop.trans (hafter ih h)
  | case11 w d cs _ _ hquote hblank houtput hinput ih =>
    rw [List.cons_append, scan_push (eq_false_of_ne_true hquote) (eq_false_of_ne_true hblank)
      houtput hinput]
    exact ih h

/-- Texts with one blank between them are read as one after another. -/
theorem scan_intercalate {css : List (List Char)} {tss : List (List Token)}
    (h : List.Forall₂ (fun cs ts => scan none none cs = .ok ts) css tss) :
    scan none none (List.intercalate [' '] css) = .ok tss.flatten := by
  have hblank : Text.isBlank ' ' = true := by decide
  induction h with
  | nil => rfl
  | @cons cs ts css tss hfirst hrest ih =>
    cases hrest with
    | nil =>
      rw [List.intercalate_singleton, List.flatten_singleton]
      exact hfirst
    | cons _ _ =>
      rw [List.intercalate_cons_cons, List.append_assoc, List.singleton_append,
        scan_append_blank hblank hfirst, ih]
      rfl

/-- Tokens that are written with one blank between them are read back. -/
theorem scan_spelledAll {css : List (List Char)} (h : List.Forall₂ Spells ts css) :
    scan none none (List.intercalate [' '] css) = .ok ts := by
  have hone : List.Forall₂ (fun cs ts => scan none none cs = .ok ts) css (ts.map fun t => [t]) := by
    rw [List.forall₂_map_right_iff]
    exact h.flip.imp fun _ _ => scan_spelled
  rw [scan_intercalate hone, ← List.flatMap_def, List.flatMap_singleton']

/-- Tokens that are written are read back. -/
theorem ofStage_writtenAll (hw : ∀ t ∈ ts, t.WellFormed) (hn : ∀ t ∈ ts, t.Numbered) :
    ofStage (writtenAll ts) = .ok ts := by
  have hspells : List.Forall₂ Spells ts (ts.map fun t => t.written.toList) := by
    rw [List.forall₂_map_right_iff, List.forall₂_same]
    exact fun t ht => spells_written (hw t ht) (hn t ht)
  have hline : (writtenAll ts).toList =
      List.intercalate [' '] (ts.map fun t => t.written.toList) := by
    rw [writtenAll, Text.join, String.toList_intercalate, List.map_map]
    rfl
  rw [ofStage, hline, scan_spelledAll hspells]

example : writtenAll
    [.word "cat" false, .word "a'b" true, .operator .append (some 2), .word "1" false] =
    "cat 'a'\"'\"'b' 2>> 1" := by decide +kernel

/-! ## What is read can be written -/

/-- The open word can be written as it is, unless it was quoted. -/
def Open.WellFormed : Option Open → Prop
  | some w => w.quoted = false → w.text ≠ [] ∧ ∀ c ∈ w.text, IsBare c
  | none => True

/-- The word that is flushed is well-formed if the open one is. -/
theorem wellFormed_flush {w : Option Open} (h : Open.WellFormed w) :
    ∀ t ∈ flush w, t.WellFormed ∧ t.Numbered := by
  intro t ht
  cases w with
  | none => cases ht
  | some w =>
    obtain ⟨text, quoted⟩ := w
    cases List.mem_singleton.mp ht
    refine ⟨fun hq => ?_, trivial⟩
    obtain ⟨hne, hbare⟩ := h hq
    rw [String.toList_ofList]
    exact ⟨fun he => hne (String.ofList_eq_empty_iff.mp he), hbare⟩

/-- The word and the operator that are closed are well-formed if the open word is. -/
theorem wellFormed_close {w : Option Open} (h : Open.WellFormed w) (hts : close w op = .ok ts) :
    ∀ t ∈ ts, t.WellFormed ∧ t.Numbered := by
  have hop : ∀ t ∈ [operator op none], t.WellFormed ∧ t.Numbered := by
    intro t ht
    rw [List.mem_singleton.mp ht]
    exact ⟨trivial, trivial⟩
  unfold close at hts
  split at hts
  · next w =>
    split at hts
    · next hdigits =>
      rw [Bool.and_eq_true] at hdigits
      split at hts
      · next n hn =>
        cases hts
        intro t ht
        rw [List.mem_singleton.mp ht]
        obtain ⟨hnumeral, rfl⟩ := Text.isNumeral_of_readInt hdigits.2 hn
        exact ⟨trivial, Text.decimalValue_lt hnumeral.short⟩
      · cases hts
    · cases hts
      intro t ht
      exact (List.mem_append.mp ht).elim (wellFormed_flush h t) (hop t)
  · cases hts
    exact hop

/-- Tokens in front of others are well-formed with them. -/
theorem wellFormed_before {found later : Except LineError (List Token)}
    (hf : ∀ ts, found = .ok ts → ∀ t ∈ ts, t.WellFormed ∧ t.Numbered)
    (hl : ∀ ts, later = .ok ts → ∀ t ∈ ts, t.WellFormed ∧ t.Numbered)
    (hts : before found later = .ok ts) : ∀ t ∈ ts, t.WellFormed ∧ t.Numbered := by
  obtain ⟨a, b, ha, hb, rfl⟩ := before_eq_ok.mp hts
  exact fun t ht => (List.mem_append.mp ht).elim (hf a ha t) (hl b hb t)

/-- An open word stays well-formed with a bare character more. -/
theorem wellFormed_push {w : Option Open} {c : Char} (h : Open.WellFormed w) (hc : IsBare c) :
    Open.WellFormed (Open.push w c) := by
  cases w with
  | none => exact fun _ => ⟨List.cons_ne_nil c [], fun d hd => List.mem_singleton.mp hd ▸ hc⟩
  | some w =>
    intro hquoted
    refine ⟨List.concat_ne_nil c w.text, fun d hd => ?_⟩
    rcases List.mem_append.mp hd with hd | hd
    · exact (h hquoted).2 d hd
    · exact List.mem_singleton.mp hd ▸ hc

/-- Only tokens that can be written are read. Within quotes the open word was quoted. -/
theorem wellFormed_scan {open? : Option Char} {w : Option Open} (hw : Open.WellFormed w)
    (hq : open? ≠ none → ∃ text, w = some ⟨text, true⟩) (hts : scan open? w cs = .ok ts) :
    ∀ t ∈ ts, t.WellFormed ∧ t.Numbered := by
  have hnone : (none : Option Char) ≠ none → ∃ text, (none : Option Open) = some ⟨text, true⟩ :=
    fun h => absurd rfl h
  fun_induction scan open? w cs generalizing ts with
  | case1 => cases hts
  | case2 w =>
    cases hts
    exact wellFormed_flush hw
  | case3 w c cs ih => exact ih hw (fun h => absurd rfl h) hts
  | case4 q w c cs hc ih =>
    obtain ⟨text, rfl⟩ := hq (Option.some_ne_none q)
    exact ih (fun h => by cases h) (fun _ => ⟨_, rfl⟩) hts
  | case5 w cs ih =>
    exact wellFormed_before (fun _ => wellFormed_close hw) (fun _ => ih trivial hnone) hts
  | case6 w cs ih =>
    exact wellFormed_before (fun _ => wellFormed_close hw) (fun _ => ih trivial hnone) hts
  | case7 w c cs _ _ hc ih =>
    refine ih ?_ (fun _ => ?_) hts
    · cases w <;> exact fun h => by cases h
    · cases w with
      | none => exact ⟨[], rfl⟩
      | some w => exact ⟨w.text, rfl⟩
  | case8 w c cs _ _ _ _ ih =>
    refine wellFormed_before (fun _ h => ?_) (fun _ => ih trivial hnone) hts
    cases h
    exact wellFormed_flush hw
  | case9 w cs _ _ _ _ ih =>
    exact wellFormed_before (fun _ => wellFormed_close hw) (fun _ => ih trivial hnone) hts
  | case10 w cs _ _ _ _ _ ih =>
    exact wellFormed_before (fun _ => wellFormed_close hw) (fun _ => ih trivial hnone) hts
  | case11 w c cs _ _ hquote hblank houtput hinput ih =>
    have hbare : IsBare c :=
      ⟨⟨eq_false_of_ne_true hquote, houtput, hinput⟩, eq_false_of_ne_true hblank⟩
    exact ih (wellFormed_push hw hbare) (fun h => absurd rfl h) hts

/-- All tokens that are read are well-formed. -/
theorem wellFormed_ofStage {stage : String} (h : ofStage stage = .ok ts) :
    ∀ t ∈ ts, t.WellFormed ∧ t.Numbered :=
  wellFormed_scan (w := none) trivial (fun h => absurd rfl h) h

/-- What is read in a stage can be written; tokens that can be written are read back from whatever
they are written as, with one blank between them; and so to write what was read in a stage, and to
read it again, gives the same. -/
theorem reads_what_is_written :
    (∀ stage ts, ofStage stage = .ok ts → ∀ t ∈ ts, t.WellFormed) ∧
      (∀ ts, (∀ t ∈ ts, t.WellFormed) →
        (∀ op n, operator op (some n) ∈ ts → n < 10 ^ Text.maxDigits) →
          List.Forall₂ Spells ts (ts.map fun t => t.written.toList) ∧
            ofStage (writtenAll ts) = .ok ts) ∧
      (∀ ts css, List.Forall₂ Spells ts css →
        ofStage (String.ofList (List.intercalate [' '] css)) = .ok ts) ∧
      ∀ stage ts, ofStage stage = .ok ts → ofStage (writtenAll ts) = .ok ts := by
  refine ⟨fun stage ts h t ht => (wellFormed_ofStage h t ht).1, fun ts hw hn => ?_,
    fun ts css h => ?_, fun stage ts h => ?_⟩
  · have hnumbered : ∀ t ∈ ts, t.Numbered := by
      intro t ht
      match t, ht with
      | .word _ _, _ => exact trivial
      | .operator _ none, _ => exact trivial
      | .operator op (some n), ht => exact hn op n ht
    refine ⟨?_, ofStage_writtenAll hw hnumbered⟩
    rw [List.forall₂_map_right_iff, List.forall₂_same]
    exact fun t ht => spells_written (hw t ht) (hnumbered t ht)
  · rw [ofStage, String.toList_ofList]
    exact scan_spelledAll h
  · have hall := wellFormed_ofStage h
    exact ofStage_writtenAll (fun t ht => (hall t ht).1) fun t ht => (hall t ht).2

end Token

end TreeShell
