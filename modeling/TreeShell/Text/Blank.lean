/-!
# Blanks and words

Which characters count as blank space, and what is cut at them: the two ends of a text, its words,
and its first word. Blank characters are the white space of Unicode together with the four
information separators.
-/

namespace TreeShell.Text

/-- Whether a character is blank: white space of Unicode or an information separator. -/
def isBlank (c : Char) : Bool :=
  let n := c.toNat
  (9 ≤ n && n ≤ 13) || (28 ≤ n && n ≤ 32) || n == 0x85 || n == 0xA0 || n == 0x1680 ||
    (0x2000 ≤ n && n ≤ 0x200A) || n == 0x2028 || n == 0x2029 || n == 0x202F || n == 0x205F ||
    n == 0x3000

/-- A text without the blanks it begins with. -/
def trimStart (cs : List Char) : List Char := cs.dropWhile isBlank

/-- A text without the blanks it ends with. -/
def trimEnd : List Char → List Char
  | [] => []
  | c :: cs =>
    match trimEnd cs with
    | [] => if isBlank c then [] else [c]
    | r => c :: r

/-- A text without the blanks at either end. -/
def trim (cs : List Char) : List Char := trimEnd (trimStart cs)

/-- The string without the blanks at either end. -/
def trimmed (s : String) : String := String.ofList (trim s.toList)

/-- The pieces of a text between the characters that satisfy `p`; always at least one piece. -/
def splitWhere (p : Char → Bool) : List Char → List (List Char)
  | [] => [[]]
  | c :: cs =>
    if p c then [] :: splitWhere p cs
    else
      match splitWhere p cs with
      | [] => [[c]]
      | w :: ws => (c :: w) :: ws

theorem splitWhere_ne_nil (p : Char → Bool) (cs : List Char) : splitWhere p cs ≠ [] := by
  cases cs with
  | nil => simp [splitWhere]
  | cons c cs =>
    unfold splitWhere
    split
    · simp
    · split <;> simp

/-- The words of a text: its longest pieces without a blank. -/
def words (cs : List Char) : List (List Char) :=
  (splitWhere isBlank cs).filter fun w => !w.isEmpty

/-- The first word of a text, with what follows the blanks after it, if anything does. -/
def firstWord (cs : List Char) : Option (List Char × Option (List Char)) :=
  match trimStart cs with
  | [] => none
  | start =>
    match trimStart (start.dropWhile fun c => !isBlank c) with
    | [] => some (start.takeWhile fun c => !isBlank c, none)
    | rest => some (start.takeWhile fun c => !isBlank c, some rest)

end TreeShell.Text
