import Mathlib.Data.List.Basic
import Mathlib.Data.Nat.Digits.Defs
import TreeShell.Json.Reader
import TreeShell.Json.Writer

/-!
# Texts and whole numbers, written and read

A text is written with escapes and read back as it was: characters beyond the first 65536 go through
two halves. A whole number is read back if it has no more digits than are read, and if what follows
it cannot go on with it.
-/

namespace TreeShell.Json

/-! ## Hexadecimal digits -/

/-- A hexadecimal digit is read as what it was written for. -/
theorem hexValue?_hexDigit {d : Nat} (h : d < 16) : Text.hexValue? (Text.hexDigit d) = some d := by
  have hall : ∀ d < 16, Text.hexValue? (Text.hexDigit d) = some d := by decide
  exact hall d h

theorem length_hexDigits (width n : Nat) : (Text.hexDigits width n).length = width := by
  induction width generalizing n with
  | zero => rfl
  | succ width ih => rw [Text.hexDigits, List.length_append, ih, List.length_singleton]

/-- Four hexadecimal digits of a number below 65536 are read as that number. -/
theorem hexFour?_hexDigits {n : Nat} (h : n < 65536) (rest : List Char) :
    hexFour? (Text.hexDigits 4 n ++ rest) = some (n, rest) := by
  have hdigits : Text.hexDigits 4 n = [Text.hexDigit (n / 4096 % 16), Text.hexDigit (n / 256 % 16),
      Text.hexDigit (n / 16 % 16), Text.hexDigit (n % 16)] := by
    simp [Text.hexDigits, Nat.div_div_eq_div_mul]
  have hvalue : ((n / 4096 % 16 * 16 + n / 256 % 16) * 16 + n / 16 % 16) * 16 + n % 16 = n := by
    omega
  have hlt : ∀ m, m % 16 < 16 := fun m => Nat.mod_lt m (by decide)
  rw [hdigits]
  simp only [List.cons_append, List.nil_append, hexFour?, hexValue?_hexDigit (hlt _),
    Option.bind_eq_bind, Option.bind_some, hvalue]
  rfl

/-! ## Characters -/

/-- No character is half of a pair. -/
theorem toNat_valid (c : Char) : c.toNat < 0xD800 ∨ 0xDFFF < c.toNat ∧ c.toNat < 0x110000 := by
  have hv := c.valid
  rw [UInt32.isValidChar, Nat.isValidChar] at hv
  exact hv

theorem loneUnit_toNat (c : Char) : Text.loneUnit c.toNat = c := by
  have hv := toNat_valid c
  have hhigh : Text.isHighHalf c.toNat = false := by
    simp only [Text.isHighHalf, Bool.and_eq_false_iff, decide_eq_false_iff_not]
    omega
  have hlow : Text.isLowHalf c.toNat = false := by
    simp only [Text.isLowHalf, Bool.and_eq_false_iff, decide_eq_false_iff_not]
    omega
  rw [Text.loneUnit, hhigh, hlow]
  exact Char.ofNat_toNat c

/-- A character that is written by its code is read back, whatever follows. -/
theorem unicodeEscape_unit {c : Char} (hc : c.toNat < 65536) {more : List Char} (hm : more ≠ []) :
    unicodeEscape (Text.hexDigits 4 c.toNat ++ more) = .ok (c, more) := by
  have hv := toNat_valid c
  have hmore : 0 < more.length := List.length_pos_iff.mpr hm
  have hhigh : Text.isHighHalf c.toNat = false := by
    simp only [Text.isHighHalf, Bool.and_eq_false_iff, decide_eq_false_iff_not]
    omega
  rw [unicodeEscape, if_neg (by rw [List.length_append, length_hexDigits]; omega),
    hexFour?_hexDigits hc]
  dsimp only
  split
  · rw [if_neg (by simp [hhigh]), loneUnit_toNat]
  · rw [loneUnit_toNat]

/-- The codes of two halves are read as the character of the two. -/
theorem unicodeEscape_of_halves {high low : Nat} {cs tail more : List Char}
    (hhigh : Text.isHighHalf high = true) (hlow : Text.isLowHalf low = true)
    (hcs : hexFour? cs = some (high, '\\' :: 'u' :: tail)) (hlength : ¬ cs.length < 5)
    (htail : hexFour? tail = some (low, more)) (hmore : 4 < tail.length) :
    unicodeEscape cs = .ok (Text.joinHalves high low, more) := by
  rw [unicodeEscape, if_neg hlength, hcs]
  refine (if_pos ⟨hhigh, hmore⟩).trans ?_
  rw [htail]
  exact if_pos hlow

/-- A character that is written by the codes of its halves is read back. -/
theorem unicodeEscape_halves {c : Char} (hc : 65536 ≤ c.toNat) {more : List Char} (hm : more ≠ []) :
    unicodeEscape (Text.hexDigits 4 (0xD800 + (c.toNat - 0x10000) / 1024) ++
      (escapeUnit (0xDC00 + (c.toNat - 0x10000) % 1024) ++ more)) = .ok (c, more) := by
  have hv := toNat_valid c
  have hhigh : Text.isHighHalf (0xD800 + (c.toNat - 0x10000) / 1024) = true := by
    simp only [Text.isHighHalf, Bool.and_eq_true, decide_eq_true_iff]
    omega
  have hlow : Text.isLowHalf (0xDC00 + (c.toNat - 0x10000) % 1024) = true := by
    simp only [Text.isLowHalf, Bool.and_eq_true, decide_eq_true_iff]
    omega
  have hjoin : Text.joinHalves (0xD800 + (c.toNat - 0x10000) / 1024)
      (0xDC00 + (c.toNat - 0x10000) % 1024) = c := by
    have hsum : 0x10000 + (0xD800 + (c.toNat - 0x10000) / 1024 - 0xD800) * 1024 +
        (0xDC00 + (c.toNat - 0x10000) % 1024 - 0xDC00) = c.toNat := by
      omega
    rw [Text.joinHalves, hsum, Char.ofNat_toNat]
  have hmore : 0 < more.length := List.length_pos_iff.mpr hm
  have hread := unicodeEscape_of_halves hhigh hlow (hexFour?_hexDigits (by omega) _)
    (by rw [List.length_append, length_hexDigits, List.length_cons]; omega)
    (hexFour?_hexDigits (by omega) more) (by rw [List.length_append, length_hexDigits]; omega)
  rw [hjoin] at hread
  exact hread

/-! ## Texts -/

/-- In a text an escape with a number stands for the character of that number. -/
theorem stringBody_of_unicodeEscape {c : Char} {start fuel : Nat} {cs more body rest : List Char}
    (hread : unicodeEscape cs = .ok (c, more)) (h : stringBody start fuel more = .ok (body, rest)) :
    stringBody start (fuel + 1) ('\\' :: 'u' :: cs) = .ok (c :: body, rest) := by
  simp only [stringBody, hread, bind, Except.bind, h]
  rfl

/-- An escape with a letter stands for the character of that letter. -/
theorem stringBody_of_simpleEscape {e c : Char} {start fuel : Nat} {more body rest : List Char}
    (hread : simpleEscape? e = some c) (h : stringBody start fuel more = .ok (body, rest)) :
    stringBody start (fuel + 1) ('\\' :: e :: more) = .ok (c :: body, rest) := by
  have hunit : e ≠ 'u' := by
    rintro rfl
    cases hread
  rw [stringBody.eq_def]
  simp [hread, h]

/-- Any other character that may stand in a text stands for itself. -/
theorem stringBody_of_plain {c : Char} {start fuel : Nat} {more body rest : List Char}
    (hquote : c ≠ '"') (hslash : c ≠ '\\') (hcontrol : 0x20 ≤ c.toNat)
    (h : stringBody start fuel more = .ok (body, rest)) :
    stringBody start (fuel + 1) (c :: more) = .ok (c :: body, rest) := by
  rw [stringBody.eq_def]
  simp [hslash, Nat.not_lt.mpr hcontrol, h]

/-- A character of a written text is read back, and then what follows it. -/
theorem stringBody_escapeChar (c : Char) {start fuel : Nat} {more body rest : List Char}
    (h : stringBody start fuel more = .ok (body, rest)) :
    stringBody start (fuel + 1) (escapeChar c ++ more) = .ok (c :: body, rest) := by
  have hm : more ≠ [] := by
    rintro rfl
    cases fuel with
    | zero => cases h
    | succ fuel => cases h
  by_cases hquote : c = '"'
  · subst hquote
    exact stringBody_of_simpleEscape rfl h
  by_cases hslash : c = '\\'
  · subst hslash
    exact stringBody_of_simpleEscape rfl h
  rw [escapeChar, if_neg hquote, if_neg hslash]
  split
  · next hc => exact hc ▸ stringBody_of_simpleEscape rfl h
  split
  · next hc => exact hc ▸ stringBody_of_simpleEscape rfl h
  split
  · next hc => exact hc ▸ stringBody_of_simpleEscape rfl h
  split
  · next hc => exact hc ▸ stringBody_of_simpleEscape rfl h
  split
  · next hc => exact hc ▸ stringBody_of_simpleEscape rfl h
  split
  · next hplain => exact stringBody_of_plain hquote hslash hplain.1 h
  split
  · next hshort => exact stringBody_of_unicodeEscape (unicodeEscape_unit hshort hm) h
  · next hlong =>
    have hread := unicodeEscape_halves (Nat.le_of_not_lt hlong) hm
    rw [List.append_assoc]
    exact stringBody_of_unicodeEscape hread h

theorem length_escapeChar_pos (c : Char) : 0 < (escapeChar c).length := by
  unfold escapeChar escapeUnit
  repeat' split
  all_goals simp

/-- A text is no longer than it is written. -/
theorem length_le_escaped (cs : List Char) : cs.length ≤ (cs.flatMap escapeChar).length := by
  induction cs with
  | nil => exact Nat.le_refl _
  | cons c cs ih =>
    have hc := length_escapeChar_pos c
    rw [List.flatMap_cons, List.length_append, List.length_cons]
    omega

/-- A written text is read back up to its closing quote. -/
theorem stringBody_escaped (cs : List Char) {start fuel : Nat} (hf : cs.length < fuel)
    (rest : List Char) :
    stringBody start fuel (cs.flatMap escapeChar ++ '"' :: rest) = .ok (cs, rest) := by
  induction cs generalizing fuel with
  | nil =>
    obtain ⟨fuel, rfl⟩ := Nat.exists_eq_succ_of_ne_zero (Nat.ne_of_gt hf)
    rfl
  | cons c cs ih =>
    rw [List.length_cons] at hf
    obtain ⟨fuel, rfl⟩ := Nat.exists_eq_succ_of_ne_zero (show fuel ≠ 0 by omega)
    rw [List.flatMap_cons, List.append_assoc]
    exact stringBody_escapeChar c (ih (by omega))

theorem toList_writeString (s : String) :
    (writeString s).toList = '"' :: (s.toList.flatMap escapeChar ++ ['"']) := by
  rw [writeString, String.toList_ofList, List.cons_append]

/-- A written text is read back from behind its opening quote. -/
theorem stringBody_writeString (s : String) (rest : List Char) :
    stringBody ('"' :: (s.toList.flatMap escapeChar ++ '"' :: rest)).length
      ('"' :: (s.toList.flatMap escapeChar ++ '"' :: rest)).length
      (s.toList.flatMap escapeChar ++ '"' :: rest) = .ok (s.toList, rest) := by
  have hle := length_le_escaped s.toList
  refine stringBody_escaped s.toList ?_ rest
  rw [List.length_cons, List.length_append, List.length_cons]
  omega

/-! ## Whole numbers -/

/-- A text that cannot go on with a number that stands in front of it. -/
def Ends (rest : List Char) : Prop :=
  ∀ c ∈ rest.head?, isPlainDigit c = false ∧ c ≠ '.' ∧ c ≠ 'e' ∧ c ≠ 'E'

theorem isPlainDigit_iff {c : Char} : isPlainDigit c = true ↔ c.isDigit = true := by
  simp [isPlainDigit, Char.isDigit, Char.le_def]

theorem isPlainDigit_of_mem {n : Nat} {c : Char} (h : c ∈ Nat.toDigits 10 n) :
    isPlainDigit c = true :=
  isPlainDigit_iff.mpr (Nat.isDigit_of_mem_toDigits (by decide) (by decide) h)

/-- The digits of a number have its value. -/
theorem digitsValue_toDigits (n : Nat) : digitsValue (Nat.toDigits 10 n) = n := by
  have h := @Nat.ofDigitChars_ten_toDigits n
  rw [Nat.ofDigitChars_eq_foldl] at h
  exact h

/-- The digits of a number that is not zero begin with another digit than zero. -/
theorem head_toDigits {n : Nat} (h : n ≠ 0) : ∃ c cs, Nat.toDigits 10 n = c :: cs ∧ c ≠ '0' := by
  induction n using Nat.strong_induction_on with
  | _ n ih =>
    by_cases hlt : n < 10
    · have hall : ∀ n < 10, n ≠ 0 → n.digitChar ≠ '0' := by decide
      exact ⟨_, [], Nat.toDigits_of_lt_base hlt, hall n hlt h⟩
    · obtain ⟨c, cs, hcs, hc⟩ := ih (n / 10) (by omega) (by omega)
      rw [Nat.toDigits_of_base_le (by decide) (Nat.le_of_not_lt hlt), hcs]
      exact ⟨c, _, rfl, hc⟩

theorem plainDigits_append {ds rest : List Char} (hd : ∀ c ∈ ds, isPlainDigit c = true)
    (hr : Ends rest) : plainDigits (ds ++ rest) = (ds, rest) := by
  have hrest : rest.takeWhile isPlainDigit = [] ∧ rest.dropWhile isPlainDigit = rest := by
    cases rest with
    | nil => exact ⟨rfl, rfl⟩
    | cons c rest =>
      obtain ⟨hc, -⟩ := hr c rfl
      simp [hc]
  rw [plainDigits, List.takeWhile_append_of_pos hd, List.dropWhile_append_of_pos hd, hrest.1,
    hrest.2, List.append_nil]

/-- The digits of a number are all that is taken for those before the point. -/
theorem wholePart_toDigits (n : Nat) {rest : List Char} (hr : Ends rest) :
    wholePart (Nat.toDigits 10 n ++ rest) = some (Nat.toDigits 10 n, rest) := by
  by_cases hn : n = 0
  · subst hn
    rfl
  · have hdigits := plainDigits_append (fun c hc => isPlainDigit_of_mem (n := n) hc) hr
    obtain ⟨c, cs, hcs, hzero⟩ := head_toDigits hn
    have hplain : isPlainDigit c = true := isPlainDigit_of_mem (n := n) (by rw [hcs]; simp)
    rw [hcs, List.cons_append] at hdigits ⊢
    rw [wholePart.eq_def]
    simp [hplain, hdigits]

theorem fractionPart_of_ends {rest : List Char} (hr : Ends rest) : fractionPart rest = none := by
  cases rest with
  | nil => rfl
  | cons c rest =>
    obtain ⟨-, hc, -⟩ := hr c rfl
    rw [fractionPart.eq_def]
    simp [hc]

theorem exponentPart_of_ends {rest : List Char} (hr : Ends rest) : exponentPart rest = none := by
  cases rest with
  | nil => rfl
  | cons c rest =>
    obtain ⟨-, -, he, hE⟩ := hr c rfl
    have hmark : ¬ (c = 'e' ∨ c = 'E') := not_or.mpr ⟨he, hE⟩
    unfold exponentPart
    dsimp only
    split
    · next heq =>
      cases heq
      exact if_neg hmark
    · next heq =>
      cases heq
      exact if_neg hmark
    · next heq =>
      cases heq
      exact if_neg hmark
    · next heq => cases heq

section Numbers

variable {n : Nat} {rest : List Char}

/-- A number that is not too long is read from its digits. -/
theorem number_toDigits (hn : Decimal.digitCount n ≤ Text.maxDigits) (hr : Ends rest) :
    number (Nat.toDigits 10 n ++ rest) = .ok (.int n, rest) := by
  have hshort : ¬ Text.maxDigits < (Nat.toDigits 10 n).length := Nat.not_lt.mpr hn
  have hsign : ∀ cs, Nat.toDigits 10 n ++ rest ≠ '-' :: cs := by
    intro cs heq
    cases hdigits : Nat.toDigits 10 n with
    | nil => exact Nat.toDigits_ne_nil hdigits
    | cons c ds =>
      have hplain : isPlainDigit c = true := isPlainDigit_of_mem (n := n) (by rw [hdigits]; simp)
      rw [hdigits] at heq
      cases heq
      cases hplain
  rw [number.eq_def]
  simp [wholePart_toDigits n hr, fractionPart_of_ends hr, exponentPart_of_ends hr, hshort,
    digitsValue_toDigits]

/-- A number that is not too long is read from its digits with a minus in front. -/
theorem number_minus_toDigits (hn : Decimal.digitCount n ≤ Text.maxDigits) (hr : Ends rest) :
    number ('-' :: (Nat.toDigits 10 n ++ rest)) = .ok (.int (-n), rest) := by
  have hshort : ¬ Text.maxDigits < (Nat.toDigits 10 n).length := Nat.not_lt.mpr hn
  rw [number.eq_def]
  simp [wholePart_toDigits n hr, fractionPart_of_ends hr, exponentPart_of_ends hr, hshort,
    digitsValue_toDigits]

end Numbers

theorem toList_writeInt (n : Int) :
    (writeInt n).toList =
      if n < 0 then '-' :: Nat.toDigits 10 n.natAbs else Nat.toDigits 10 n.natAbs := by
  rw [writeInt, Nat.toString_eq_ofList_toDigits]
  split
  · simp
  · rw [String.toList_ofList]

/-- A whole number with no more digits than are read. -/
def Readable (n : Int) : Prop := Decimal.digitCount n.natAbs ≤ Text.maxDigits

instance : DecidablePred Readable := fun _ => inferInstanceAs (Decidable (_ ≤ _))

/-- A whole number is read back, if it has no more digits than are read. -/
theorem number_writeInt {n : Int} (hn : Readable n) {rest : List Char} (hr : Ends rest) :
    number ((writeInt n).toList ++ rest) = .ok (.int n, rest) := by
  rw [toList_writeInt]
  split
  · next hneg =>
    have hvalue : -((n.natAbs : Nat) : Int) = n := by omega
    rw [List.cons_append, number_minus_toDigits hn hr, hvalue]
  · next hpos =>
    have hvalue : ((n.natAbs : Nat) : Int) = n := by omega
    rw [number_toDigits hn hr, hvalue]

end TreeShell.Json
