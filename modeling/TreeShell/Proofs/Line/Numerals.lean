import Mathlib.Data.List.Basic
import Mathlib.Data.List.Induction
import Mathlib.Data.List.TakeWhile
import Mathlib.Data.Nat.Digits.Defs
import TreeShell.Line.Redirection

/-!
# Digits that stand for numbers

What passes for digits need not stand for a number: some digits are no decimal digits, and a numeral
can be too long. Digits stand for a number just if neither is so.
-/

namespace TreeShell

namespace Text

variable {c : Char} {cs : List Char}

/-- The blanks stand in two short stretches and at four other places. -/
theorem toNat_of_isBlank (h : isBlank c = true) :
    c.toNat < 33 ∨ (0x2000 ≤ c.toNat ∧ c.toNat < 0x2060) ∨
      c.toNat ∈ ([0x85, 0xA0, 0x1680, 0x3000] : List Nat) := by
  simp only [isBlank, Bool.or_eq_true, Bool.and_eq_true, decide_eq_true_eq, beq_iff_eq] at h
  simp only [List.mem_cons, List.not_mem_nil, or_false]
  omega

/-- No digit is a blank. -/
theorem isBlank_of_isDigit (h : isDigit c = true) : isBlank c = false := by
  have hlow : ∀ n < 33, isDigit (Char.ofNat n) = false := by decide +kernel
  have hhigh : ∀ k < 0x60, isBlank (Char.ofNat (0x2000 + k)) = true →
      isDigit (Char.ofNat (0x2000 + k)) = false := by decide +kernel
  have hother : ∀ n ∈ ([0x85, 0xA0, 0x1680, 0x3000] : List Nat),
      isDigit (Char.ofNat n) = false := by decide +kernel
  by_contra hb
  rw [Bool.not_eq_false] at hb
  rw [← Char.ofNat_toNat c] at h hb
  rcases toNat_of_isBlank hb with hc | ⟨hc, hc'⟩ | hc
  · rw [Char.ofNat_toNat] at hc
    rw [hlow c.toNat hc] at h
    cases h
  · rw [Char.ofNat_toNat] at hc hc'
    obtain ⟨k, hk⟩ := Nat.exists_eq_add_of_le hc
    rw [hk] at h hb hc'
    rw [hhigh k (by omega) hb] at h
    cases h
  · rw [Char.ofNat_toNat] at hc
    rw [hother c.toNat hc] at h
    cases h

theorem ne_of_isDigit (h : isDigit c = true) : c ≠ '_' ∧ c ≠ '-' ∧ c ≠ '+' := by
  refine ⟨?_, ?_, ?_⟩
  · rintro rfl
    exact absurd h (by decide)
  · rintro rfl
    exact absurd h (by decide)
  · rintro rfl
    exact absurd h (by decide)

/-- Whether a character is a decimal digit. -/
def isDecimal (c : Char) : Bool := (digitValue? c).isSome

theorem digitRun_cons (b : Bool) (hc : isDigit c = true) :
    digitRun b (c :: cs) =
      match digitValue? c with
      | some d => (digitRun true cs).map fun (ds, rest) => (d :: ds, rest)
      | none => if b then some ([], c :: cs) else none :=
  digitRun.eq_2 b c cs (ne_of_isDigit hc).1

/-- Of digits, the decimal ones in front are read, and the rest is left. -/
theorem digitRun_true (h : ∀ c ∈ cs, isDigit c = true) :
    ∃ ds, digitRun true cs = some (ds, cs.dropWhile isDecimal) ∧
      ds.length = (cs.takeWhile isDecimal).length := by
  induction cs with
  | nil => exact ⟨[], rfl, rfl⟩
  | cons c cs ih =>
    obtain ⟨ds, hrun, hlength⟩ := ih fun c' hc' => h c' (List.mem_cons_of_mem c hc')
    rw [digitRun_cons true (h c List.mem_cons_self)]
    cases hd : digitValue? c with
    | none =>
      have hdecimal : isDecimal c = false := by rw [isDecimal, hd]; rfl
      exact ⟨[], by simp [hdecimal], by simp [hdecimal]⟩
    | some d =>
      have hdecimal : isDecimal c = true := by rw [isDecimal, hd]; rfl
      exact ⟨d :: ds, by simp [hdecimal, hrun], by simp [hdecimal, hlength]⟩

/-- Digits that are left after the decimal ones are no blanks. -/
theorem not_all_isNumeralBlank (h : ∀ c ∈ cs, isDigit c = true)
    (hall : ¬ ∀ c ∈ cs, isDecimal c = true) :
    (cs.dropWhile isDecimal).all isNumeralBlank = false := by
  cases hd : cs.dropWhile isDecimal with
  | nil => exact absurd (List.dropWhile_eq_nil_iff.mp hd) hall
  | cons c rest =>
    have hc : c ∈ cs := (List.dropWhile_suffix isDecimal).mem (hd ▸ List.mem_cons_self)
    simp [isNumeralBlank, isBlank_of_isDigit (h c hc)]

/-- Neither blanks nor a sign are passed over in front of a digit. -/
theorem readInt_cons (hc : isDigit c = true) (cs : List Char) :
    readInt (String.ofList (c :: cs)) =
      match digitRun false (c :: cs) with
      | none => .error (.malformed (String.ofList (c :: cs)))
      | some (ds, rest) =>
        if maxDigits < ds.length then .error (.tooLong ds.length)
        else if rest.all isNumeralBlank then .ok (ofDigits ds : Int)
        else .error (.malformed (String.ofList (c :: cs))) := by
  have hblank : (c :: cs).dropWhile isNumeralBlank = c :: cs := by
    simp [isNumeralBlank, isBlank_of_isDigit hc]
  have hsign : signOf (c :: cs) = (false, c :: cs) := by
    obtain ⟨-, hminus, hplus⟩ := ne_of_isDigit hc
    rw [signOf]
    · exact fun _ h => hminus (List.cons.inj h).1
    · exact fun _ h => hplus (List.cons.inj h).1
  rw [readInt, String.toList_ofList, hblank, hsign]
  rfl

/-- Digits stand for a number just if they are all decimal and not too many. -/
theorem readInt_digits_iff (h : isDigits cs = true) :
    (∃ n, readInt (String.ofList cs) = .ok n) ↔
      (∀ c ∈ cs, isDecimal c = true) ∧ cs.length ≤ maxDigits := by
  rw [isDigits, Bool.and_eq_true, List.all_eq_true] at h
  obtain ⟨hne, hdigit⟩ := h
  cases cs with
  | nil => cases hne
  | cons c cs =>
    have hc := hdigit c List.mem_cons_self
    have hrest : ∀ c' ∈ cs, isDigit c' = true := fun c' hc' =>
      hdigit c' (List.mem_cons_of_mem c hc')
    obtain ⟨ds, hrun, hlength⟩ := digitRun_true hrest
    rw [readInt_cons hc, digitRun_cons false hc]
    cases hd : digitValue? c with
    | none => simp [isDecimal, hd]
    | some d =>
      have hdecimal : isDecimal c = true := by rw [isDecimal, hd]; rfl
      simp only [hrun, Option.map_some, List.length_cons, hlength]
      by_cases hall : ∀ c' ∈ cs, isDecimal c' = true
      · rw [List.takeWhile_eq_self_iff.mpr hall, List.dropWhile_eq_nil_iff.mpr hall]
        by_cases hlong : maxDigits < cs.length + 1
        · have hshort : ¬ cs.length + 1 ≤ maxDigits := Nat.not_le_of_lt hlong
          simp only [hlong, hshort, if_true, and_false, iff_false]
          rintro ⟨n, hn⟩
          cases hn
        · simp only [hlong, List.all_nil, if_true, if_false, List.forall_mem_cons, hdecimal,
            true_and]
          exact ⟨fun _ => ⟨hall, Nat.le_of_not_lt hlong⟩, fun _ => ⟨_, rfl⟩⟩
      · have hleft := not_all_isNumeralBlank hrest hall
        simp only [hleft, Bool.false_eq_true, if_false, List.forall_mem_cons, hall, and_false,
          false_and, iff_false]
        rintro ⟨n, hn⟩
        split at hn
        · cases hn
        · cases hn

/-! ## The number that digits stand for -/

theorem isDigit_of_isDecimal (h : isDecimal c = true) : isDigit c = true := by
  rw [isDigit, Bool.or_eq_true]
  exact Or.inl h

theorem digitValue?_lt {d : Nat} (h : digitValue? c = some d) : d < 10 := by
  obtain ⟨z, hz, rfl⟩ := Option.map_eq_some_iff.mp h
  have hrange := List.find?_some hz
  rw [Bool.and_eq_true, decide_eq_true_iff, decide_eq_true_iff] at hrange
  omega

/-- The digits that numbers are written with come first among the decimal digits. -/
theorem digitValue?_of_isDigit (h : c.isDigit = true) : digitValue? c = some (c.toNat - 48) := by
  rw [Char.isDigit, Bool.and_eq_true, decide_eq_true_iff, decide_eq_true_iff] at h
  have hrange : 48 ≤ c.toNat ∧ c.toNat ≤ 57 :=
    ⟨UInt32.le_iff_toNat_le.mp h.1, UInt32.le_iff_toNat_le.mp h.2⟩
  have hfirst : (decide (0x30 ≤ c.toNat) && decide (c.toNat < 0x30 + 10)) = true := by
    rw [Bool.and_eq_true, decide_eq_true_iff, decide_eq_true_iff]
    omega
  have hfind : (decimalZeros.find? fun z => z ≤ c.toNat && c.toNat < z + 10) = some 0x30 :=
    List.find?_cons_of_pos hfirst
  rw [digitValue?, hfind]
  rfl

/-- The values of the decimal digits of a text. -/
def digitValues (cs : List Char) : List Nat := cs.filterMap digitValue?

/-- The number that decimal digits stand for. -/
def decimalValue (cs : List Char) : Nat := ofDigits (digitValues cs)

theorem ofDigits_append_singleton (ds : List Nat) (d : Nat) :
    ofDigits (ds ++ [d]) = 10 * ofDigits ds + d := by
  rw [ofDigits, List.foldl_append]
  rfl

/-- A number is below the power of ten that has one zero for each of its digits. -/
theorem ofDigits_lt {ds : List Nat} (h : ∀ d ∈ ds, d < 10) : ofDigits ds < 10 ^ ds.length := by
  induction ds using List.reverseRecOn with
  | nil => decide
  | append_singleton ds d ih =>
    have hlast : d < 10 := h d (List.mem_append_right ds List.mem_cons_self)
    have hbefore := ih fun d' hd => h d' (List.mem_append_left [d] hd)
    rw [ofDigits_append_singleton, List.length_append, List.length_singleton, pow_succ]
    omega

/-- A numeral that is not too long stands for a number that a numeral of that length can reach. -/
theorem decimalValue_lt (hshort : cs.length ≤ maxDigits) : decimalValue cs < 10 ^ maxDigits := by
  have hlength : (digitValues cs).length ≤ maxDigits :=
    (List.length_filterMap_le digitValue? cs).trans hshort
  have hall : ∀ d ∈ digitValues cs, d < 10 := by
    intro d hd
    obtain ⟨c, -, hc⟩ := List.mem_filterMap.mp hd
    exact digitValue?_lt hc
  exact (ofDigits_lt hall).trans_le (Nat.pow_le_pow_right (by decide) hlength)

theorem digitRun_decimals (h : ∀ c ∈ cs, isDecimal c = true) :
    digitRun true cs = some (digitValues cs, []) := by
  induction cs with
  | nil => rfl
  | cons c cs ih =>
    obtain ⟨hc, hrest⟩ := List.forall_mem_cons.mp h
    obtain ⟨d, hd⟩ := Option.isSome_iff_exists.mp hc
    have hvalues : digitValues (c :: cs) = d :: digitValues cs := List.filterMap_cons_some hd
    rw [digitRun_cons true (isDigit_of_isDecimal hc), hd, ih hrest, hvalues]
    rfl

/-- A text is a numeral without anything around it: decimal digits, and not too many. -/
structure IsNumeral (cs : List Char) : Prop where
  ne_nil : cs ≠ []
  decimal : ∀ c ∈ cs, isDecimal c = true
  short : cs.length ≤ maxDigits

theorem IsNumeral.isDigits (h : IsNumeral cs) : isDigits cs = true := by
  rw [Text.isDigits, Bool.and_eq_true, List.all_eq_true, Bool.not_eq_true',
    List.isEmpty_eq_false_iff]
  exact ⟨h.ne_nil, fun c hc => isDigit_of_isDecimal (h.decimal c hc)⟩

/-- A numeral is read as the number that it stands for. -/
theorem IsNumeral.readInt (h : IsNumeral cs) :
    readInt (String.ofList cs) = .ok (decimalValue cs : Int) := by
  cases cs with
  | nil => exact absurd rfl h.ne_nil
  | cons c cs =>
    obtain ⟨hc, hrest⟩ := List.forall_mem_cons.mp h.decimal
    obtain ⟨d, hd⟩ := Option.isSome_iff_exists.mp hc
    have hvalues : digitValues (c :: cs) = d :: digitValues cs := List.filterMap_cons_some hd
    have hnumber : decimalValue (c :: cs) = ofDigits (d :: digitValues cs) :=
      congrArg ofDigits hvalues
    have hlength : ¬ maxDigits < (d :: digitValues cs).length := by
      rw [← hvalues]
      exact Nat.not_lt.mpr ((List.length_filterMap_le digitValue? _).trans h.short)
    rw [readInt_cons (isDigit_of_isDecimal hc), digitRun_cons false (isDigit_of_isDecimal hc), hd,
      digitRun_decimals hrest, hnumber]
    dsimp only [Option.map_some]
    rw [if_neg hlength]
    rfl

/-- Digits that are read as a number are a numeral, and stand for that number. -/
theorem isNumeral_of_readInt {n : Int} (h : isDigits cs = true)
    (hn : readInt (String.ofList cs) = .ok n) : IsNumeral cs ∧ n = decimalValue cs := by
  obtain ⟨hall, hshort⟩ := (readInt_digits_iff h).mp ⟨n, hn⟩
  have hne : cs ≠ [] := by
    rintro rfl
    cases h
  have hnumeral : IsNumeral cs := ⟨hne, hall, hshort⟩
  rw [hnumeral.readInt] at hn
  cases hn
  exact ⟨hnumeral, rfl⟩

/-- A number that is not too large is written as a numeral. -/
theorem isNumeral_toDigits {n : Nat} (h : n < 10 ^ maxDigits) : IsNumeral (Nat.toDigits 10 n) where
  ne_nil := Nat.toDigits_ne_nil
  decimal c hc := by
    rw [isDecimal, digitValue?_of_isDigit (Nat.isDigit_of_mem_toDigits (by decide) (by decide) hc)]
    rfl
  short := Nat.toDigits_length 10 n maxDigits (by decide) h

/-- The digits that a number is written with stand for that number. -/
theorem decimalValue_toDigits (n : Nat) : decimalValue (Nat.toDigits 10 n) = n := by
  have hvalue := @Nat.ofDigitChars_ten_toDigits n
  rw [Nat.ofDigitChars_eq_foldl] at hvalue
  have hvalues : digitValues (Nat.toDigits 10 n) =
      (Nat.toDigits 10 n).map fun c => c.toNat - 48 := by
    refine List.filterMap_eq_map_iff_forall_eq_some.mpr fun c hc => ?_
    exact digitValue?_of_isDigit (Nat.isDigit_of_mem_toDigits (by decide) (by decide) hc)
  rw [decimalValue, hvalues, ofDigits, List.foldl_map]
  exact hvalue

/-! ## Texts whose digits can all be read -/

/-- All digits of a text are decimal, and it is no longer than a numeral may be: whatever run of
digits there is in it stands for a number. -/
structure Countable (cs : List Char) : Prop where
  decimal : ∀ c ∈ cs, isDigit c = true → isDecimal c = true
  short : cs.length ≤ maxDigits

/-- Digits of such a text are a numeral. -/
theorem Countable.isNumeral (h : Countable cs) (hd : isDigits cs = true) : IsNumeral cs := by
  rw [isDigits, Bool.and_eq_true, List.all_eq_true, Bool.not_eq_true',
    List.isEmpty_eq_false_iff] at hd
  exact ⟨hd.1, fun c hc => h.decimal c hc (hd.2 c hc), h.short⟩

end Text

end TreeShell
