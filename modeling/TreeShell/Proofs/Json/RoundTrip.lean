import TreeShell.Proofs.Json.Tokens

/-!
# Values, written and read

A value that is written with every item on a line of its own is read back as it was, however deep it
goes and whatever texts are in it, if its numbers are whole and no object has a name twice. The
fields of an object come back in their order.
-/

namespace TreeShell.Json

mutual

/-- A value whose numbers are whole and have no more digits than are read, and in which no object
has a name twice. -/
def Plain : Json → Prop
  | .null | .bool _ | .string _ => True
  | .int n => Readable n
  | .float _ => False
  | .array items => PlainItems items
  | .object fields => (fields.map Prod.fst).Nodup ∧ PlainFields fields

/-- Items that are all such values. -/
def PlainItems : List Json → Prop
  | [] => True
  | item :: items => Plain item ∧ PlainItems items

/-- Fields whose values are all such values. -/
def PlainFields : List (String × Json) → Prop
  | [] => True
  | (_, v) :: fields => Plain v ∧ PlainFields fields

end

/-! ## How written values begin and go on -/

/-- The items of a list as they are written, from the first one on. -/
def itemsText (depth : Nat) : List Json → List Char
  | [] => []
  | item :: items => (prettyAt depth item).toList ++ (prettyItems depth items).toList

/-- The fields of an object as they are written, from the first one on. -/
def fieldsText (depth : Nat) : List (String × Json) → List Char
  | [] => []
  | (k, v) :: fields =>
    (writeString k).toList ++
      (':' :: ' ' :: ((prettyAt depth v).toList ++ (prettyFields depth fields).toList))

variable {depth : Nat} {rest : List Char}

theorem prettyAt_null : prettyAt depth .null = "null" := by
  simp [prettyAt, writeAtom]

theorem prettyAt_bool (b : Bool) : prettyAt depth (.bool b) = writeAtom (.bool b) := by
  simp [prettyAt]

theorem prettyAt_int (n : Int) : prettyAt depth (.int n) = writeInt n := by
  simp [prettyAt, writeAtom]

theorem prettyAt_string (s : String) : prettyAt depth (.string s) = writeString s := by
  simp [prettyAt, writeAtom]

theorem prettyAt_array_nil : prettyAt depth (.array []) = "[]" := by
  simp [prettyAt, writeAtom]

theorem prettyAt_object_nil : prettyAt depth (.object []) = "\x7b\x7d" := by
  simp [prettyAt, writeAtom]

/-- The items of an array stand on lines of their own, one step further in. -/
theorem toList_prettyAt_array (item : Json) (items : List Json) :
    (prettyAt depth (.array (item :: items))).toList =
      '[' :: ((newLine (depth + 1)).toList ++
        (itemsText (depth + 1) (item :: items) ++ ((newLine depth).toList ++ [']']))) := by
  simp [prettyAt, itemsText]

/-- A comma ends the line of an item before another. -/
theorem toList_prettyItems (item : Json) (items : List Json) :
    (prettyItems depth (item :: items)).toList =
      ',' :: ((newLine depth).toList ++ itemsText depth (item :: items)) := by
  simp [prettyItems, itemsText]

/-- The fields of an object stand on lines of their own, one step further in. -/
theorem toList_prettyAt_object (field : String × Json) (fields : List (String × Json)) :
    (prettyAt depth (.object (field :: fields))).toList =
      '\x7b' :: ((newLine (depth + 1)).toList ++
        (fieldsText (depth + 1) (field :: fields) ++ ((newLine depth).toList ++ ['\x7d']))) := by
  simp [prettyAt, fieldsText]

/-- A comma ends the line of a field before another. -/
theorem toList_prettyFields (field : String × Json) (fields : List (String × Json)) :
    (prettyFields depth (field :: fields)).toList =
      ',' :: ((newLine depth).toList ++ fieldsText depth (field :: fields)) := by
  simp [prettyFields, fieldsText]

/-- A new line is a line end with two blanks for each level. -/
theorem toList_newLine : (newLine depth).toList = '\n' :: List.replicate (2 * depth) ' ' := by
  simp [newLine]

/-- The line break and the blanks in front of a line are passed over. -/
theorem skipSpace_newLine (cs : List Char) :
    skipSpace ((newLine depth).toList ++ cs) = skipSpace cs := by
  rw [toList_newLine, skipSpace, skipSpace]
  refine List.dropWhile_append_of_pos fun c hc => ?_
  rw [List.mem_cons, List.mem_replicate] at hc
  rcases hc with rfl | ⟨-, rfl⟩
  · rfl
  · rfl

/-- Nothing is passed over in front of a character that is no space. -/
theorem skipSpace_of_not_space {c : Char} (h : isSpace c = false) (cs : List Char) :
    skipSpace (c :: cs) = c :: cs := by
  rw [skipSpace, List.dropWhile_cons, h]
  rfl

/-- A number ends where a new line begins. -/
theorem ends_newLine (depth : Nat) (cs : List Char) : Ends ((newLine depth).toList ++ cs) := by
  rw [toList_newLine]
  rintro c ⟨⟩
  decide

/-- A number ends at a comma. -/
theorem ends_comma (cs : List Char) : Ends (',' :: cs) := by
  rintro c ⟨⟩
  decide

/-- A digit is none of some characters that are no digits. -/
theorem ne_of_isPlainDigit {c : Char} (hc : isPlainDigit c = true) {others : List Char}
    (h : others.all (fun d => !isPlainDigit d) = true) : ∀ d ∈ others, c ≠ d := by
  rintro d hd rfl
  have hno := List.all_eq_true.mp h c hd
  rw [hc] at hno
  cases hno

/-- A written whole number begins with a digit, or with a sign and a digit behind it. -/
theorem exists_digit (n : Int) :
    ∃ c cs, isPlainDigit c = true ∧
      ((writeInt n).toList = c :: cs ∨ (writeInt n).toList = '-' :: c :: cs) := by
  have hne : Nat.toDigits 10 n.natAbs ≠ [] := Nat.toDigits_ne_nil
  obtain ⟨c, cs, hdigits⟩ := List.exists_cons_of_ne_nil hne
  have hc : isPlainDigit c = true := isPlainDigit_of_mem (n := n.natAbs) (by rw [hdigits]; simp)
  refine ⟨c, cs, hc, ?_⟩
  rw [toList_writeInt, hdigits]
  split
  · exact Or.inr rfl
  · exact Or.inl rfl

/-- A character that a value can begin with: it is no space, and ends no list. -/
def Opens (c : Char) : Prop := isSpace c = false ∧ c ≠ ']' ∧ c ≠ '\uFEFF'

instance : DecidablePred Opens := fun _ => inferInstanceAs (Decidable (_ ∧ _ ∧ _))

/-- A digit opens a value. -/
theorem opens_of_isPlainDigit {c : Char} (hc : isPlainDigit c = true) : Opens c := by
  have hne : ∀ d ∈ [' ', '\t', '\n', '\r', ']', '\uFEFF'], c ≠ d :=
    ne_of_isPlainDigit hc (by decide)
  simpa [Opens, isSpace, and_assoc] using hne

/-- A written value begins with a character that is no space and ends no list. -/
theorem exists_start {v : Json} (hv : v.Plain) (depth : Nat) :
    ∃ c cs, (prettyAt depth v).toList = c :: cs ∧ Opens c := by
  cases v with
  | null => exact ⟨'n', "ull".toList, by rw [prettyAt_null]; rfl, by decide⟩
  | bool b =>
    cases b
    · exact ⟨'f', "alse".toList, by rw [prettyAt_bool]; rfl, by decide⟩
    · exact ⟨'t', "rue".toList, by rw [prettyAt_bool]; rfl, by decide⟩
  | int n =>
    rw [prettyAt_int]
    obtain ⟨c, cs, hc, h | h⟩ := exists_digit n
    · exact ⟨c, cs, h, opens_of_isPlainDigit hc⟩
    · exact ⟨'-', c :: cs, h, by decide⟩
  | float x => exact absurd hv id
  | string s =>
    exact ⟨'"', _, by rw [prettyAt_string, toList_writeString], by decide⟩
  | array items =>
    cases items with
    | nil => exact ⟨'[', [']'], by rw [prettyAt_array_nil]; rfl, by decide⟩
    | cons item items => exact ⟨'[', _, toList_prettyAt_array item items, by decide⟩
  | object fields =>
    cases fields with
    | nil => exact ⟨'\x7b', ['\x7d'], by rw [prettyAt_object_nil]; rfl, by decide⟩
    | cons field fields => exact ⟨'\x7b', _, toList_prettyAt_object field fields, by decide⟩

/-! ## Values without items -/

/-- A text that does not begin with a word has nothing behind it. -/
theorem afterWord_eq_none {word : String} {cs : List Char} (h : ¬ word.toList <+: cs) :
    afterWord word cs = none := by
  rw [List.prefix_iff_eq_take, String.length_toList] at h
  exact if_neg fun heq => h heq.symm

/-- What is none of the words is read as a number. -/
theorem atom_eq_number {cs : List Char} (h : ∀ e ∈ wordValues, ¬ e.1.toList <+: cs) :
    atom cs = number cs := by
  rw [atom]
  split
  · next found hfound =>
    obtain ⟨⟨word, v⟩, he, hword⟩ := List.exists_of_findSome?_eq_some hfound
    have hnone : afterWord word cs = none := afterWord_eq_none (h _ he)
    dsimp only at hword
    rw [hnone] at hword
    cases hword
  · rfl

/-- A text that begins with a digit, or with a sign and a digit, is read as a number. -/
theorem atom_of_isPlainDigit {c : Char} (hc : isPlainDigit c = true) (cs : List Char) :
    atom (c :: cs) = number (c :: cs) ∧ atom ('-' :: c :: cs) = number ('-' :: c :: cs) := by
  have hne : ∀ d ∈ ['n', 't', 'f', 'N', 'I', '-'], d ≠ c := fun d hd =>
    (ne_of_isPlainDigit hc (by decide) d hd).symm
  simp only [List.mem_cons, List.not_mem_nil, or_false, forall_eq_or_imp, forall_eq] at hne
  constructor
  · refine atom_eq_number ?_
    simp [wordValues, List.cons_prefix_cons, hne]
  · refine atom_eq_number ?_
    simp [wordValues, List.cons_prefix_cons, hne]

/-- What begins neither a text nor a list nor an object is read as an atom. -/
theorem value_eq_atom {c : Char} (hc : c ≠ '"' ∧ c ≠ '[' ∧ c ≠ '\x7b') (fuel : Nat)
    (cs : List Char) : value (fuel + 1) (c :: cs) = atom (c :: cs) := by
  rw [value.eq_def]
  simp [hc]

/-- A whole number is read back. -/
theorem value_writeInt {n : Int} (hn : Readable n) (fuel : Nat) (hr : Ends rest) :
    value (fuel + 1) ((writeInt n).toList ++ rest) = .ok (.int n, rest) := by
  have hread := number_writeInt hn hr
  obtain ⟨c, cs, hc, h | h⟩ := exists_digit n
  · have hne : ∀ d ∈ ['"', '[', '\x7b'], c ≠ d := ne_of_isPlainDigit hc (by decide)
    rw [h, List.cons_append] at hread ⊢
    rw [value_eq_atom (by simpa using hne), (atom_of_isPlainDigit hc _).1, hread]
  · rw [h, List.cons_append, List.cons_append] at hread ⊢
    rw [value_eq_atom (by decide), (atom_of_isPlainDigit hc _).2, hread]

theorem value_null (fuel : Nat) (rest : List Char) :
    value (fuel + 1) ("null".toList ++ rest) = .ok (.null, rest) := rfl

theorem value_bool (b : Bool) (fuel : Nat) (rest : List Char) :
    value (fuel + 1) ((writeAtom (.bool b)).toList ++ rest) = .ok (.bool b, rest) := by
  cases b <;> rfl

/-- A text is read back. -/
theorem value_writeString (s : String) (fuel : Nat) (rest : List Char) :
    value (fuel + 1) ((writeString s).toList ++ rest) = .ok (.string s, rest) := by
  have hread := stringBody_writeString s rest
  rw [toList_writeString, List.cons_append, List.append_assoc, List.singleton_append]
  simp only [value, hread, bind, Except.bind, String.ofList_toList]
  rfl

/-! ## Lists and objects -/

/-- An array is read when its items are. -/
theorem value_array {fuel : Nat} {c : Char} {cs more rest : List Char} {vs : List Json}
    (hspace : skipSpace cs = c :: more) (hc : c ≠ ']')
    (h : items fuel (c :: more) = .ok (vs, rest)) :
    value (fuel + 1) ('[' :: cs) = .ok (.array vs, rest) := by
  simp only [value, hspace]
  split
  · next heq =>
    cases heq
    exact absurd rfl hc
  · rw [h]
    rfl

/-- An object is read when its fields are. -/
theorem value_object {fuel : Nat} {c : Char} {cs more rest : List Char} {fs : List (String × Json)}
    (hspace : skipSpace cs = c :: more) (hc : c ≠ '\x7d')
    (h : fields fuel [] (c :: more) = .ok (fs, rest)) :
    value (fuel + 1) ('\x7b' :: cs) = .ok (.object fs, rest) := by
  simp only [value, hspace]
  split
  · next heq =>
    cases heq
    exact absurd rfl hc
  · rw [h]
    rfl

/-- The last item of a list. -/
theorem items_last {fuel : Nat} {cs more rest : List Char} {v : Json}
    (h : value fuel cs = .ok (v, more)) (hspace : skipSpace more = ']' :: rest) :
    items (fuel + 1) cs = .ok ([v], rest) := by
  simp only [items, h, bind, Except.bind, hspace]
  rfl

/-- An item of a list with others behind it. -/
theorem items_next {fuel : Nat} {cs more others rest : List Char} {v : Json} {vs : List Json}
    (h : value fuel cs = .ok (v, more)) (hspace : skipSpace more = ',' :: others)
    (hothers : items fuel (skipSpace others) = .ok (vs, rest)) :
    items (fuel + 1) cs = .ok (v :: vs, rest) := by
  simp only [items, h, bind, Except.bind, hspace, hothers]
  rfl

section Fields

variable {fuel : Nat} {known fs : List (String × Json)} {name : String} {v : Json}
  {cs more others rest : List Char}

theorem skipSpace_space (cs : List Char) : skipSpace (' ' :: cs) = skipSpace cs := rfl

/-- The last field of an object. -/
theorem fields_last (h : value fuel (skipSpace cs) = .ok (v, more))
    (hspace : skipSpace more = '\x7d' :: rest) :
    fields (fuel + 1) known ((writeString name).toList ++ (':' :: ' ' :: cs)) =
      .ok (setField name v known, rest) := by
  have hname := stringBody_writeString name (':' :: ' ' :: cs)
  have hcolon := skipSpace_of_not_space (c := ':') (by decide) (' ' :: cs)
  rw [toList_writeString, List.cons_append, List.append_assoc, List.singleton_append]
  simp only [fields, hname, bind, Except.bind, hcolon, skipSpace_space, h, hspace,
    String.ofList_toList]
  rfl

/-- A field of an object with others behind it. -/
theorem fields_next (h : value fuel (skipSpace cs) = .ok (v, more))
    (hspace : skipSpace more = ',' :: others)
    (hothers : fields fuel (setField name v known) (skipSpace others) = .ok (fs, rest)) :
    fields (fuel + 1) known ((writeString name).toList ++ (':' :: ' ' :: cs)) = .ok (fs, rest) := by
  have hname := stringBody_writeString name (':' :: ' ' :: cs)
  have hcolon := skipSpace_of_not_space (c := ':') (by decide) (' ' :: cs)
  rw [toList_writeString, List.cons_append, List.append_assoc, List.singleton_append]
  simp only [fields, hname, bind, Except.bind, hcolon, skipSpace_space, h, hspace,
    String.ofList_toList, hothers]

/-- A field with a new name is put behind the others. -/
theorem setField_of_not_mem (h : name ∉ known.map Prod.fst) :
    setField name v known = known ++ [(name, v)] := by
  induction known with
  | nil => rfl
  | cons field known ih =>
    rw [List.map_cons, List.mem_cons, not_or] at h
    rw [setField, if_neg (Ne.symm h.1), ih h.2, List.cons_append]

end Fields

/-! ## Reading back -/

/-- What is written of a value is never empty. -/
theorem length_prettyAt_pos {v : Json} (hv : v.Plain) (depth : Nat) :
    0 < (prettyAt depth v).toList.length := by
  obtain ⟨c, cs, h, -⟩ := exists_start hv depth
  rw [h]
  exact Nat.succ_pos _

/-- No space stands in front of a written value. -/
theorem skipSpace_prettyAt {v : Json} (hv : v.Plain) (depth : Nat) (cs : List Char) :
    skipSpace ((prettyAt depth v).toList ++ cs) = (prettyAt depth v).toList ++ cs := by
  obtain ⟨c, start, h, hc, -⟩ := exists_start hv depth
  rw [h, List.cons_append, skipSpace_of_not_space hc]

/-- No blank stands in front of the first item. -/
theorem skipSpace_itemsText {v : Json} (hv : v.Plain) (depth : Nat) (vs : List Json)
    (cs : List Char) :
    skipSpace (itemsText depth (v :: vs) ++ cs) = itemsText depth (v :: vs) ++ cs := by
  rw [itemsText, List.append_assoc, skipSpace_prettyAt hv]

/-- No blank stands in front of the first field. -/
theorem skipSpace_fieldsText (depth : Nat) (field : String × Json) (fs : List (String × Json))
    (cs : List Char) :
    skipSpace (fieldsText depth (field :: fs) ++ cs) = fieldsText depth (field :: fs) ++ cs := by
  rw [fieldsText, toList_writeString, List.cons_append, List.cons_append,
    skipSpace_of_not_space (by decide)]

mutual

/-- A written value is read back with as much fuel as it has characters. -/
theorem value_prettyAt (v : Json) (hv : v.Plain) (depth fuel : Nat)
    (hf : (prettyAt depth v).toList.length ≤ fuel) {rest : List Char} (hr : Ends rest) :
    value fuel ((prettyAt depth v).toList ++ rest) = .ok (v, rest) := by
  -- by induction on the value: each level has a bracket, a comma or a colon of its own, and so
  -- gives up one unit of fuel for at least one character; behind an item stands a comma or a line
  -- feed, so that no number goes on into what follows it
  have hpos := length_prettyAt_pos hv depth
  obtain ⟨fuel, rfl⟩ := Nat.exists_eq_succ_of_ne_zero (show fuel ≠ 0 by omega)
  cases v with
  | null =>
    rw [prettyAt_null, value_null]
  | bool b =>
    rw [prettyAt_bool, value_bool]
  | int n =>
    rw [prettyAt_int, value_writeInt hv fuel hr]
  | float x => exact absurd hv id
  | string s =>
    rw [prettyAt_string, value_writeString]
  | array vs =>
    cases vs with
    | nil =>
      rw [prettyAt_array_nil]
      rfl
    | cons item vs =>
      rw [Plain] at hv
      rw [toList_prettyAt_array] at hf ⊢
      obtain ⟨c, start, hstart, hspace, hbracket, -⟩ := exists_start hv.1 (depth + 1)
      have hlength : (itemsText (depth + 1) (item :: vs)).length < fuel := by
        simp only [List.length_cons, List.length_append] at hf
        omega
      have hitems := items_itemsText (item :: vs) (List.cons_ne_nil _ _) hv (depth + 1) depth fuel
        hlength rest
      simp only [itemsText, hstart, List.cons_append, List.append_assoc, List.nil_append]
        at hitems ⊢
      refine value_array ?_ hbracket hitems
      rw [skipSpace_newLine, skipSpace_of_not_space hspace]
  | object fs =>
    cases fs with
    | nil =>
      rw [prettyAt_object_nil]
      rfl
    | cons field fs =>
      rw [Plain] at hv
      rw [toList_prettyAt_object] at hf ⊢
      have hlength : (fieldsText (depth + 1) (field :: fs)).length < fuel := by
        simp only [List.length_cons, List.length_append] at hf
        omega
      have hfields := fields_fieldsText (field :: fs) (List.cons_ne_nil _ _) hv.2 (depth + 1) depth
        fuel hlength [] hv.1 rest
      simp only [fieldsText, toList_writeString, List.cons_append, List.append_assoc,
        List.nil_append] at hfields ⊢
      refine value_object ?_ (by decide) hfields
      rw [skipSpace_newLine, skipSpace_of_not_space (by decide)]

/-- The written items of a list are read back. -/
theorem items_itemsText (vs : List Json) (hne : vs ≠ []) (hv : PlainItems vs)
    (depth outer fuel : Nat) (hf : (itemsText depth vs).length < fuel) (rest : List Char) :
    items fuel (itemsText depth vs ++ ((newLine outer).toList ++ ']' :: rest)) =
      .ok (vs, rest) := by
  cases vs with
  | nil => exact absurd rfl hne
  | cons item others =>
    rw [PlainItems] at hv
    rw [itemsText, List.length_append] at hf
    rw [itemsText, List.append_assoc]
    obtain ⟨fuel, rfl⟩ := Nat.exists_eq_succ_of_ne_zero (show fuel ≠ 0 by omega)
    cases others with
    | nil =>
      have hitem := value_prettyAt item hv.1 depth fuel (by omega)
        (ends_newLine outer (']' :: rest))
      exact items_last hitem (skipSpace_newLine _)
    | cons next others =>
      rw [toList_prettyItems] at hf ⊢
      have hitem := value_prettyAt item hv.1 depth fuel (by omega)
        (ends_comma ((newLine depth).toList ++
          (itemsText depth (next :: others) ++ ((newLine outer).toList ++ ']' :: rest))))
      have hlength : (itemsText depth (next :: others)).length < fuel := by
        simp only [List.length_cons, List.length_append] at hf
        omega
      have hothers := items_itemsText (next :: others) (List.cons_ne_nil _ _) hv.2 depth outer fuel
        hlength rest
      rw [List.cons_append, List.append_assoc]
      refine items_next hitem (skipSpace_of_not_space (by decide) _) ?_
      rw [PlainItems] at hv
      rw [skipSpace_newLine, skipSpace_itemsText hv.2.1, hothers]

/-- The written fields of an object are read back, and put behind those that are known. -/
theorem fields_fieldsText (fs : List (String × Json)) (hne : fs ≠ []) (hv : PlainFields fs)
    (depth outer fuel : Nat) (hf : (fieldsText depth fs).length < fuel)
    (known : List (String × Json)) (hn : ((known ++ fs).map Prod.fst).Nodup) (rest : List Char) :
    fields fuel known (fieldsText depth fs ++ ((newLine outer).toList ++ '\x7d' :: rest)) =
      .ok (known ++ fs, rest) := by
  cases fs with
  | nil => exact absurd rfl hne
  | cons field others =>
    obtain ⟨name, v⟩ := field
    rw [PlainFields] at hv
    have hknown : name ∉ known.map Prod.fst := by
      intro hmem
      rw [List.map_append, List.map_cons, List.nodup_append] at hn
      exact hn.2.2 name hmem name List.mem_cons_self rfl
    have hset := setField_of_not_mem (v := v) hknown
    rw [fieldsText] at hf ⊢
    rw [List.append_assoc, List.cons_append, List.cons_append, List.append_assoc]
    simp only [List.length_append, List.length_cons] at hf
    obtain ⟨fuel, rfl⟩ := Nat.exists_eq_succ_of_ne_zero (show fuel ≠ 0 by omega)
    cases others with
    | nil =>
      have hfield := value_prettyAt v hv.1 depth fuel (by omega)
        (ends_newLine outer ('\x7d' :: rest))
      rw [← skipSpace_prettyAt hv.1] at hfield
      rw [← hset]
      exact fields_last hfield (skipSpace_newLine _)
    | cons next others =>
      rw [toList_prettyFields] at hf ⊢
      have hfield := value_prettyAt v hv.1 depth fuel (by omega)
        (ends_comma ((newLine depth).toList ++
          (fieldsText depth (next :: others) ++ ((newLine outer).toList ++ '\x7d' :: rest))))
      rw [← skipSpace_prettyAt hv.1] at hfield
      have hlength : (fieldsText depth (next :: others)).length < fuel := by
        simp only [List.length_cons, List.length_append] at hf
        omega
      have hnext :
          known ++ [(name, v)] ++ next :: others = known ++ (name, v) :: next :: others := by
        rw [List.append_assoc, List.singleton_append]
      have hothers := fields_fieldsText (next :: others) (List.cons_ne_nil _ _) hv.2 depth outer
        fuel hlength (known ++ [(name, v)]) (hnext ▸ hn) rest
      rw [hnext] at hothers
      rw [List.cons_append, List.append_assoc]
      refine fields_next hfield (skipSpace_of_not_space (by decide) _) ?_
      rw [hset, skipSpace_newLine, skipSpace_fieldsText, hothers]

end

/-- A value is read back from the text that it is written as. -/
theorem read_pretty {v : Json} (hv : v.Plain) : read v.pretty = .ok v := by
  have hends : Ends [] := fun c hc => nomatch hc
  have hvalue := value_prettyAt v hv 0 (2 * v.pretty.toList.length + 2)
    (by rw [pretty]; omega) hends
  have hskip := skipSpace_prettyAt hv 0 []
  obtain ⟨c, start, hstart, -, -, hmark⟩ := exists_start hv 0
  have hhead : v.pretty.toList.head? ≠ some '\uFEFF' := by
    rw [pretty, hstart]
    exact fun heq => hmark (Option.some.inj heq)
  rw [List.append_nil, ← pretty] at hvalue hskip
  rw [read, if_neg hhead, hskip, hvalue]
  rfl

/-! ## The characters of written values -/

/-- A line feed, or a printable character of seven bits. -/
def Printed (c : Char) : Prop := c = '\n' ∨ 0x20 ≤ c.toNat ∧ c.toNat < 0x7F

instance : DecidablePred Printed := fun _ => inferInstanceAs (Decidable (_ ∨ _ ∧ _))

/-- A text is printed if all its characters are. -/
theorem printed_of_all {cs : List Char} (h : cs.all (fun c => decide (Printed c)) = true) :
    ∀ c ∈ cs, Printed c :=
  fun c hc => of_decide_eq_true (List.all_eq_true.mp h c hc)

/-- Hexadecimal digits are printed characters. -/
theorem printed_hexDigits (width n : Nat) : ∀ c ∈ Text.hexDigits width n, Printed c := by
  induction width generalizing n with
  | zero => exact fun c hc => absurd hc List.not_mem_nil
  | succ width ih =>
    have hall : ∀ d < 16, Printed (Text.hexDigit d) := by decide
    have hdigit : Printed (Text.hexDigit (n % 16)) := hall _ (Nat.mod_lt n (by decide))
    intro c hc
    rw [Text.hexDigits, List.mem_append, List.mem_singleton] at hc
    rcases hc with hc | rfl
    · exact ih _ c hc
    · exact hdigit

/-- An escaped unit consists of printed characters. -/
theorem printed_escapeUnit (n : Nat) : ∀ c ∈ escapeUnit n, Printed c := by
  intro c hc
  rw [escapeUnit, List.mem_cons, List.mem_cons] at hc
  rcases hc with rfl | rfl | hc
  · decide
  · decide
  · exact printed_hexDigits 4 n c hc

/-- A character is written with printed characters only. -/
theorem printed_escapeChar (c : Char) : ∀ d ∈ escapeChar c, Printed d := by
  unfold escapeChar
  iterate 7
    split
    · exact printed_of_all (by decide)
  split
  · next hplain =>
    rw [List.forall_mem_singleton]
    exact Or.inr hplain
  split
  · exact printed_escapeUnit _
  · exact List.forall_mem_append.mpr ⟨printed_escapeUnit _, printed_escapeUnit _⟩

/-- A text is written with printed characters only. -/
theorem printed_writeString (s : String) : ∀ c ∈ (writeString s).toList, Printed c := by
  rw [toList_writeString, List.forall_mem_cons, List.forall_mem_append, List.forall_mem_singleton]
  refine ⟨by decide, fun d hd => ?_, by decide⟩
  obtain ⟨c, -, hc⟩ := List.mem_flatMap.mp hd
  exact printed_escapeChar c d hc

/-- A number is written with printed characters only. -/
theorem printed_writeInt (n : Int) : ∀ c ∈ (writeInt n).toList, Printed c := by
  have hdigits : ∀ c ∈ Nat.toDigits 10 n.natAbs, Printed c := by
    intro c hc
    have hplain := isPlainDigit_of_mem hc
    rw [isPlainDigit, Bool.and_eq_true, decide_eq_true_iff, decide_eq_true_iff] at hplain
    have hlow : 48 ≤ c.toNat := hplain.1
    have hhigh : c.toNat ≤ 57 := hplain.2
    exact Or.inr (by omega)
  rw [toList_writeInt]
  split
  · exact List.forall_mem_cons.mpr ⟨by decide, hdigits⟩
  · exact hdigits

/-- A new line consists of printed characters. -/
theorem printed_newLine (depth : Nat) : ∀ c ∈ (newLine depth).toList, Printed c := by
  rw [toList_newLine, List.forall_mem_cons]
  refine ⟨by decide, fun c hc => ?_⟩
  rw [(List.mem_replicate.mp hc).2]
  decide

mutual

/-- A value is written in printable characters of seven bits and line feeds. -/
theorem printed_prettyAt (v : Json) (hv : v.Plain) (depth : Nat) :
    ∀ c ∈ (prettyAt depth v).toList, Printed c := by
  cases v with
  | null =>
    rw [prettyAt_null]
    exact printed_of_all (by decide)
  | bool b =>
    rw [prettyAt_bool]
    cases b
    · exact printed_of_all (by decide)
    · exact printed_of_all (by decide)
  | int n =>
    rw [prettyAt_int]
    exact printed_writeInt n
  | float x => exact absurd hv id
  | string s =>
    rw [prettyAt_string]
    exact printed_writeString s
  | array vs =>
    cases vs with
    | nil =>
      rw [prettyAt_array_nil]
      exact printed_of_all (by decide)
    | cons item vs =>
      rw [Plain] at hv
      rw [toList_prettyAt_array]
      rw [List.forall_mem_cons, List.forall_mem_append, List.forall_mem_append,
        List.forall_mem_append]
      exact ⟨by decide, printed_newLine _, printed_itemsText (item :: vs) hv _, printed_newLine _,
        printed_of_all (by decide)⟩
  | object fs =>
    cases fs with
    | nil =>
      rw [prettyAt_object_nil]
      exact printed_of_all (by decide)
    | cons field fs =>
      rw [Plain] at hv
      rw [toList_prettyAt_object]
      rw [List.forall_mem_cons, List.forall_mem_append, List.forall_mem_append,
        List.forall_mem_append]
      exact ⟨by decide, printed_newLine _, printed_fieldsText (field :: fs) hv.2 _,
        printed_newLine _, printed_of_all (by decide)⟩

/-- Plain items are written with printed characters and line breaks only. -/
theorem printed_itemsText (vs : List Json) (hv : PlainItems vs) (depth : Nat) :
    ∀ c ∈ itemsText depth vs, Printed c := by
  cases vs with
  | nil => exact fun c hc => absurd hc List.not_mem_nil
  | cons item others =>
    rw [PlainItems] at hv
    rw [itemsText, List.forall_mem_append]
    refine ⟨printed_prettyAt item hv.1 depth, ?_⟩
    cases others with
    | nil => simp [prettyItems]
    | cons next others =>
      rw [toList_prettyItems, List.forall_mem_cons, List.forall_mem_append]
      exact ⟨by decide, printed_newLine _, printed_itemsText (next :: others) hv.2 depth⟩

/-- Plain fields are written with printed characters and line breaks only. -/
theorem printed_fieldsText (fs : List (String × Json)) (hv : PlainFields fs) (depth : Nat) :
    ∀ c ∈ fieldsText depth fs, Printed c := by
  cases fs with
  | nil => exact fun c hc => absurd hc List.not_mem_nil
  | cons field others =>
    obtain ⟨name, v⟩ := field
    rw [PlainFields] at hv
    simp only [fieldsText, List.forall_mem_cons, List.forall_mem_append]
    refine ⟨printed_writeString name, by decide, by decide, printed_prettyAt v hv.1 depth, ?_⟩
    cases others with
    | nil => simp [prettyFields]
    | cons next others =>
      rw [toList_prettyFields, List.forall_mem_cons, List.forall_mem_append]
      exact ⟨by decide, printed_newLine _, printed_fieldsText (next :: others) hv.2 depth⟩

end

end TreeShell.Json
