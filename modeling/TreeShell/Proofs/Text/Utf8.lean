import TreeShell.Text.Utf8

/-!
# Bytes and texts

Bytes are read as a text just if they are the bytes of this text. The bytes of a character are told
by how many there are, with the bounds for the second that leave out what takes fewer bytes, what is
half of a pair, and what is beyond the last character; from these its number is put together, and
they are what the number is taken apart into.
-/

namespace TreeShell.Text

variable {a b c d : UInt8} {ch : Char} {cs : List Char} {bytes front rest : List UInt8}
  {n width : Nat}

/-- The bytes that go on with a character are those from 128 to 191. -/
theorem isTail_iff : isTail b = true ↔ 0x80 ≤ b.toNat ∧ b.toNat < 0xC0 := by
  rw [isTail, Bool.and_eq_true, decide_eq_true_iff, decide_eq_true_iff, UInt8.le_iff_toNat_le,
    UInt8.lt_iff_toNat_lt]
  rfl

/-- The second byte keeps out longer forms than needed, halves of pairs and numbers that are too
large. -/
theorem mayFollow_iff :
    mayFollow a b = true ↔ (0x80 ≤ b.toNat ∧ b.toNat < 0xC0) ∧ (a.toNat = 0xE0 → 0xA0 ≤ b.toNat) ∧
      (a.toNat = 0xED → b.toNat < 0xA0) ∧ (a.toNat = 0xF0 → 0x90 ≤ b.toNat) ∧
        (a.toNat = 0xF4 → b.toNat < 0x90) := by
  rw [mayFollow, Bool.and_eq_true, isTail_iff]
  refine and_congr_right fun _ => ?_
  simp only [beq_iff_eq, ← UInt8.toNat_inj, UInt8.le_iff_toNat_le, UInt8.lt_iff_toNat_lt,
    UInt8.toNat_ofNat, Nat.reduceMod, Nat.reducePow]
  grind

/-- Bytes are those of a character, whose number is put together from them. -/
inductive Encodes : List UInt8 → Nat → Prop where
  | one {a : UInt8} (ha : a.toNat < 0x80) : Encodes [a] a.toNat
  | two {a b : UInt8} (ha : 0xC2 ≤ a.toNat ∧ a.toNat < 0xE0) (hb : isTail b = true) :
      Encodes [a, b] (a.toNat % 32 * 64 + tailBits b)
  | three {a b c : UInt8} (ha : 0xE0 ≤ a.toNat ∧ a.toNat < 0xF0) (hb : mayFollow a b = true)
      (hc : isTail c = true) :
      Encodes [a, b, c] (a.toNat % 16 * 4096 + tailBits b * 64 + tailBits c)
  | four {a b c d : UInt8} (ha : 0xF0 ≤ a.toNat ∧ a.toNat < 0xF5) (hb : mayFollow a b = true)
      (hc : isTail c = true) (hd : isTail d = true) :
      Encodes [a, b, c, d]
        (a.toNat % 8 * 262144 + tailBits b * 4096 + tailBits c * 64 + tailBits d)

/-! ## The front of some bytes -/

/-- The front of bytes is looked for among the bytes of as many as the first says. -/
theorem utf8Front_cons (a : UInt8) (rest : List UInt8) :
    utf8Front (a :: rest) =
      if a.toNat < 0x80 then .char (Char.ofNat a.toNat) 1
      else if a.toNat < 0xC2 then .bad .start 1
      else if a.toNat < 0xE0 then
        match rest with
        | [] => .bad .cutShort 1
        | b :: _ =>
          if isTail b then .char (Char.ofNat (a.toNat % 32 * 64 + tailBits b)) 2
          else .bad .continuation 1
      else if a.toNat < 0xF0 then frontThree a rest
      else if a.toNat < 0xF5 then frontFour a rest
      else .bad .start 1 := by
  rw [utf8Front.eq_def]
  simp only [UInt8.lt_iff_toNat_lt]
  rfl

/-- A character is read from its bytes, whatever follows them. -/
theorem Encodes.utf8Front_append (h : Encodes front n) (rest : List UInt8) :
    utf8Front (front ++ rest) = .char (Char.ofNat n) front.length := by
  cases h with
  | one ha =>
    rw [List.singleton_append, utf8Front_cons, if_pos ha]
    rfl
  | two ha hb =>
    rw [List.cons_append, utf8Front_cons, if_neg (by omega), if_neg (by omega), if_pos ha.2]
    exact if_pos hb
  | three ha hb hc =>
    rw [List.cons_append, utf8Front_cons, if_neg (by omega), if_neg (by omega), if_neg (by omega),
      if_pos ha.2]
    simp [frontThree, hb, hc]
  | four ha hb hc hd =>
    rw [List.cons_append, utf8Front_cons, if_neg (by omega), if_neg (by omega), if_neg (by omega),
      if_neg (by omega), if_pos ha.2]
    simp [frontFour, hb, hc, hd]

/-- A character of three bytes was read from three bytes that fit together. -/
theorem exists_of_frontThree (h : frontThree a rest = .char ch width) :
    ∃ b c others, rest = b :: c :: others ∧ mayFollow a b = true ∧ isTail c = true ∧
      ch = Char.ofNat (a.toNat % 16 * 4096 + tailBits b * 64 + tailBits c) ∧ width = 3 := by
  unfold frontThree at h
  split at h
  · cases h
  · split at h <;> cases h
  · next b c others =>
    cases hb : mayFollow a b with
    | false => simp [hb] at h
    | true =>
      cases hc : isTail c with
      | false => simp [hb, hc] at h
      | true =>
        simp only [hb, hc, Bool.not_true, Bool.false_eq_true, if_false, Utf8Front.char.injEq] at h
        exact ⟨b, c, others, rfl, hb, hc, h.1.symm, h.2.symm⟩

/-- A character of four bytes was read from four bytes that fit together. -/
theorem exists_of_frontFour (h : frontFour a rest = .char ch width) :
    ∃ b c d others, rest = b :: c :: d :: others ∧ mayFollow a b = true ∧ isTail c = true ∧
      isTail d = true ∧
      ch = Char.ofNat
        (a.toNat % 8 * 262144 + tailBits b * 4096 + tailBits c * 64 + tailBits d) ∧ width = 4 := by
  unfold frontFour at h
  split at h
  · cases h
  · split at h <;> cases h
  · split at h
    · cases h
    · split at h <;> cases h
  · next b c d others =>
    cases hb : mayFollow a b with
    | false => simp [hb] at h
    | true =>
      cases hc : isTail c with
      | false => simp [hb, hc] at h
      | true =>
        cases hd : isTail d with
        | false => simp [hb, hc, hd] at h
        | true =>
          simp only [hb, hc, hd, Bool.not_true, Bool.false_eq_true, if_false,
            Utf8Front.char.injEq] at h
          exact ⟨b, c, d, others, rfl, hb, hc, hd, h.1.symm, h.2.symm⟩

/-- What is found in front of bytes is the character of the first of them. -/
theorem exists_encodes (h : utf8Front bytes = .char ch width) :
    ∃ front rest n, bytes = front ++ rest ∧ Encodes front n ∧ ch = Char.ofNat n ∧
      width = front.length := by
  cases bytes with
  | nil => cases h
  | cons a rest =>
    rw [utf8Front_cons] at h
    split at h
    · next ha =>
      cases h
      exact ⟨[a], rest, _, rfl, .one ha, rfl, rfl⟩
    split at h
    · cases h
    split at h
    · next hge ha =>
      split at h
      · cases h
      · next b others =>
        split at h
        · next hb =>
          cases h
          exact ⟨[a, b], others, _, rfl, .two ⟨Nat.le_of_not_lt hge, ha⟩ hb, rfl, rfl⟩
        · cases h
    split at h
    · next hge ha =>
      obtain ⟨b, c, others, rfl, hb, hc, rfl, rfl⟩ := exists_of_frontThree h
      exact ⟨[a, b, c], others, _, rfl, .three ⟨Nat.le_of_not_lt hge, ha⟩ hb hc, rfl, rfl⟩
    split at h
    · next hge ha =>
      obtain ⟨b, c, d, others, rfl, hb, hc, hd, rfl, rfl⟩ := exists_of_frontFour h
      exact ⟨[a, b, c, d], others, _, rfl, .four ⟨Nat.le_of_not_lt hge, ha⟩ hb hc hd, rfl, rfl⟩
    · cases h

theorem utf8Front_eq_nothing (h : utf8Front bytes = .nothing) : bytes = [] := by
  cases bytes with
  | nil => rfl
  | cons a rest =>
    unfold utf8Front frontThree frontFour at h
    grind

/-! ## The bytes of a character -/

/-- The number of a character is not that of a half of a pair, and not too large. -/
theorem toNat_char (ch : Char) :
    ch.toNat < 0xD800 ∨ 0xDFFF < ch.toNat ∧ ch.toNat < 0x110000 := ch.valid

theorem toNat_ofNat (h : n < 0xD800 ∨ 0xDFFF < n ∧ n < 0x110000) : (Char.ofNat n).toNat = n := by
  rw [Char.ofNat, dif_pos h]
  rfl

theorem ofNat_eq {k : Nat} (h : k = a.toNat) : UInt8.ofNat k = a := by
  rw [h, UInt8.ofNat_toNat]

theorem Encodes.of_eq {k : Nat} (h : Encodes front k) (hk : k = n) : Encodes front n := hk ▸ h

/-- The bytes of a character encode its number. -/
theorem encodes_utf8EncodeChar (ch : Char) : Encodes (String.utf8EncodeChar ch) ch.toNat := by
  have hvalid := toNat_char ch
  have hnumber : ch.val.toNat = ch.toNat := rfl
  have hbyte : ∀ k, k < 256 → (UInt8.ofNat k).toNat = k := fun k => UInt8.toNat_ofNat_of_lt'
  rw [String.utf8EncodeChar.eq_def, hnumber]
  generalize ch.toNat = n at *
  dsimp only
  split
  · have ha := hbyte n (by omega)
    exact (Encodes.one (by omega)).of_eq ha
  split
  · have ha := hbyte (n / 64 % 32 + 192) (by omega)
    have hb := hbyte (n % 64 + 128) (by omega)
    refine (Encodes.two (by omega) (isTail_iff.mpr (by omega))).of_eq ?_
    rw [tailBits, ha, hb]
    omega
  -- three bytes and four bytes end alike
  have hb := hbyte (n / 64 % 64 + 128) (by omega)
  have hc := hbyte (n % 64 + 128) (by omega)
  split
  · have ha := hbyte (n / 4096 % 16 + 224) (by omega)
    refine (Encodes.three (by omega) (mayFollow_iff.mpr (by omega))
      (isTail_iff.mpr (by omega))).of_eq ?_
    rw [tailBits, tailBits, ha, hb, hc]
    omega
  · have ha := hbyte (n / 262144 % 8 + 240) (by omega)
    have hfirst := hbyte (n / 4096 % 64 + 128) (by omega)
    refine (Encodes.four (by omega) (mayFollow_iff.mpr (by omega)) (isTail_iff.mpr (by omega))
      (isTail_iff.mpr (by omega))).of_eq ?_
    rw [tailBits, tailBits, tailBits, ha, hfirst, hb, hc]
    omega

/-- The bytes of a character are those that its number is taken apart into. -/
theorem Encodes.eq_utf8EncodeChar (h : Encodes front n) :
    front = String.utf8EncodeChar (Char.ofNat n) := by
  have hnumber : (Char.ofNat n).val.toNat = (Char.ofNat n).toNat := rfl
  rw [String.utf8EncodeChar.eq_def, hnumber]
  dsimp only
  cases h with
  | @one a ha =>
    rw [toNat_ofNat (by omega), if_pos (by omega), ofNat_eq rfl]
  | @two a b ha hb =>
    rw [isTail_iff] at hb
    rw [tailBits, toNat_ofNat (by omega), if_neg (by omega), if_pos (by omega),
      ofNat_eq (a := a) (by omega), ofNat_eq (a := b) (by omega)]
  | @three a b c ha hb hc =>
    rw [mayFollow_iff] at hb
    rw [isTail_iff] at hc
    rw [tailBits, tailBits, toNat_ofNat (by omega), if_neg (by omega), if_neg (by omega),
      if_pos (by omega), ofNat_eq (a := a) (by omega), ofNat_eq (a := b) (by omega),
      ofNat_eq (a := c) (by omega)]
  | @four a b c d ha hb hc hd =>
    rw [mayFollow_iff] at hb
    rw [isTail_iff] at hc hd
    rw [tailBits, tailBits, tailBits, toNat_ofNat (by omega), if_neg (by omega), if_neg (by omega),
      if_neg (by omega), ofNat_eq (a := a) (by omega), ofNat_eq (a := b) (by omega),
      ofNat_eq (a := c) (by omega), ofNat_eq (a := d) (by omega)]

/-- A character is in front of bytes just if these begin with its bytes. -/
theorem utf8Front_eq_char_iff :
    utf8Front bytes = .char ch width ↔
      ∃ rest, bytes = String.utf8EncodeChar ch ++ rest ∧
        width = (String.utf8EncodeChar ch).length := by
  constructor
  · intro h
    obtain ⟨front, rest, n, rfl, hfront, rfl, rfl⟩ := exists_encodes h
    rw [hfront.eq_utf8EncodeChar]
    exact ⟨rest, rfl, rfl⟩
  · rintro ⟨rest, rfl, rfl⟩
    rw [(encodes_utf8EncodeChar ch).utf8Front_append, Char.ofNat_toNat]

/-! ## Texts -/

theorem utf8_cons (ch : Char) (cs : List Char) :
    utf8 (ch :: cs) = String.utf8EncodeChar ch ++ utf8 cs :=
  List.flatMap_cons

theorem length_utf8EncodeChar_pos (ch : Char) : 0 < (String.utf8EncodeChar ch).length :=
  List.length_pos_iff.mpr String.utf8EncodeChar_ne_nil

theorem length_le_length_utf8 (cs : List Char) : cs.length ≤ (utf8 cs).length := by
  induction cs with
  | nil => exact Nat.le_refl 0
  | cons ch cs ih =>
    have hpos := length_utf8EncodeChar_pos ch
    rw [utf8_cons, List.length_append, List.length_cons]
    omega

/-- The bytes of a text are read as that text. -/
theorem decodeFrom_utf8 {fuel : Nat} (hfuel : cs.length ≤ fuel) (position : Nat) :
    decodeFrom fuel position (utf8 cs) = .ok cs := by
  induction cs generalizing fuel position with
  | nil => cases fuel <;> rfl
  | cons ch cs ih =>
    obtain ⟨fuel, rfl⟩ := Nat.exists_eq_succ_of_ne_zero (Nat.ne_zero_of_lt hfuel)
    have hfront : utf8Front (utf8 (ch :: cs)) = .char ch (String.utf8EncodeChar ch).length :=
      utf8Front_eq_char_iff.mpr ⟨utf8 cs, utf8_cons ch cs, rfl⟩
    rw [decodeFrom, hfront]
    dsimp only
    rw [utf8_cons, List.drop_left, ih (Nat.le_of_succ_le_succ hfuel)]
    rfl

/-- Bytes that are read as a text are the bytes of that text. -/
theorem eq_utf8_of_decodeFrom {fuel position : Nat} (hfuel : bytes.length ≤ fuel)
    (h : decodeFrom fuel position bytes = .ok cs) : bytes = utf8 cs := by
  induction fuel generalizing position bytes cs with
  | zero =>
    cases h
    exact List.eq_nil_of_length_eq_zero (Nat.le_zero.mp hfuel)
  | succ fuel ih =>
    rw [decodeFrom] at h
    split at h
    · next hfront =>
      cases h
      exact utf8Front_eq_nothing hfront
    · next ch width hfront =>
      obtain ⟨rest, rfl, rfl⟩ := utf8Front_eq_char_iff.mp hfront
      rw [List.drop_left] at h
      cases hrest : decodeFrom fuel (position + (String.utf8EncodeChar ch).length) rest with
      | error e =>
        rw [hrest] at h
        cases h
      | ok others =>
        rw [hrest] at h
        cases h
        have hpos := length_utf8EncodeChar_pos ch
        rw [List.length_append] at hfuel
        rw [utf8_cons, ih (by omega) hrest]
    · cases h

/-- Bytes are read as a text just if they are the bytes of this text. -/
theorem decodeUtf8_eq_ok_iff : decodeUtf8 bytes = .ok cs ↔ bytes = utf8 cs := by
  refine ⟨eq_utf8_of_decodeFrom (Nat.le_refl _), ?_⟩
  rintro rfl
  exact decodeFrom_utf8 (length_le_length_utf8 cs) 0

/-- Bytes that are refused are those of no text. -/
theorem ne_utf8_of_decodeUtf8 {e : Utf8Error} (h : decodeUtf8 bytes = .error e) (cs : List Char) :
    bytes ≠ utf8 cs := by
  intro hbytes
  rw [decodeUtf8_eq_ok_iff.mpr hbytes] at h
  cases h

end TreeShell.Text
