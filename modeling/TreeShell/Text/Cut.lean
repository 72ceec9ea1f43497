import TreeShell.Text.Blank

/-!
# Cutting and comparing texts

Pieces between separators, the parts before and after the first or the last separator, and the tests
whether one text begins with, ends with or contains another. Everything counts in characters.
-/

namespace TreeShell.Text

/-- The pieces of a text between the occurrences of `sep`; always at least one piece. -/
def splitOn (sep : Char) (cs : List Char) : List (List Char) := splitWhere (· == sep) cs

/-- What stands before the first `sep`, and what stands after it if there is one. -/
def cutFirst (sep : Char) : List Char → List Char × Option (List Char)
  | [] => ([], none)
  | c :: cs =>
    if c = sep then ([], some cs)
    else (c :: (cutFirst sep cs).1, (cutFirst sep cs).2)

/-- What stands before the last `sep` if there is one, and what stands after it. -/
def cutLast (sep : Char) : List Char → Option (List Char) × List Char
  | [] => (none, [])
  | c :: cs =>
    match cutLast sep cs with
    | (some before, after) => (some (c :: before), after)
    | (none, after) => if c = sep then (some [], after) else (none, c :: after)

/-- What follows `start` in a text that begins with it. -/
def dropStart? : (start cs : List Char) → Option (List Char)
  | [], cs => some cs
  | _ :: _, [] => none
  | a :: start, c :: cs => if a = c then dropStart? start cs else none

/-- Whether a text begins with `start`. -/
def startsWith (start cs : List Char) : Bool := (dropStart? start cs).isSome

/-- What precedes `tail` in a text that ends with it. -/
def dropTail? (tail cs : List Char) : Option (List Char) :=
  (dropStart? tail.reverse cs.reverse).map List.reverse

/-- Whether `part` occurs in a text. -/
def occursIn (part : List Char) : List Char → Bool
  | [] => part.isEmpty
  | c :: cs => startsWith part (c :: cs) || occursIn part cs

/-- What follows the last occurrence of `part`, if there is one. -/
def afterLast? (part : List Char) : List Char → Option (List Char)
  | [] => none
  | c :: cs =>
    match afterLast? part cs with
    | some rest => some rest
    | none => dropStart? part (c :: cs)

/-- A text without the `c`s it ends with. -/
def trimEndOf (c : Char) : List Char → List Char
  | [] => []
  | d :: cs =>
    match trimEndOf c cs with
    | [] => if d = c then [] else [d]
    | r => d :: r

theorem dropStart?_eq_some_iff {start cs rest : List Char} :
    dropStart? start cs = some rest ↔ cs = start ++ rest := by
  induction start generalizing cs with
  | nil => simp [dropStart?, eq_comm]
  | cons a start ih =>
    cases cs with
    | nil => simp [dropStart?]
    | cons c cs =>
      by_cases h : a = c
      · simp [dropStart?, h, ih]
      · have : ¬ c = a := fun hc => h hc.symm
        simp [dropStart?, h, this]

theorem dropTail?_eq_some_iff {tail cs rest : List Char} :
    dropTail? tail cs = some rest ↔ cs = rest ++ tail := by
  simp only [dropTail?, Option.map_eq_some_iff, dropStart?_eq_some_iff]
  constructor
  · rintro ⟨r, hr, rfl⟩
    simpa using congrArg List.reverse hr
  · rintro rfl
    exact ⟨rest.reverse, by simp, by simp⟩

/-- The string without the slashes it ends with. -/
def withoutEndSlashes (s : String) : String := String.ofList (trimEndOf '/' s.toList)

/-- Whether the string begins with `start`. -/
def hasStart (s start : String) : Bool := startsWith start.toList s.toList

/-- Whether the string ends with `tail`. -/
def hasTail (s tail : String) : Bool := (dropTail? tail.toList s.toList).isSome

/-- The string without `start` in front, if it begins with it. -/
def withoutStart (s start : String) : String :=
  match dropStart? start.toList s.toList with
  | some rest => String.ofList rest
  | none => s

/-- The string without `tail` behind, if it ends with it. -/
def withoutTail (s tail : String) : String :=
  match dropTail? tail.toList s.toList with
  | some rest => String.ofList rest
  | none => s

/-- What stands before the first equals sign, and what stands after it if there is one. -/
def assignment (s : String) : String × Option String :=
  (String.ofList (cutFirst '=' s.toList).1,
    (cutFirst '=' s.toList).2.map String.ofList)

/-- The string at least `width` characters long, with spaces put in front. -/
def padStart (width : Nat) (s : String) : String :=
  String.ofList (List.replicate (width - s.length) ' ') ++ s

/-- The string at least `width` characters long, with spaces put behind. -/
def padEnd (width : Nat) (s : String) : String :=
  s ++ String.ofList (List.replicate (width - s.length) ' ')

/-- The strings one after another with `sep` between them. -/
def join (sep : String) (parts : List String) : String := sep.intercalate parts

end TreeShell.Text
