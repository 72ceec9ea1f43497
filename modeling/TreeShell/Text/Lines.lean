/-!
# Lines

A text is cut into lines at every line break: line feed, vertical tab, form feed, carriage return,
the three larger information separators, next line, and the line and paragraph separators. Carriage
return and line feed together are one break. A break at the very end begins no further line.
-/

namespace TreeShell.Text

/-- Whether a character ends a line. -/
def isLineBreak (c : Char) : Bool :=
  let n := c.toNat
  (10 ≤ n && n ≤ 13) || (28 ≤ n && n ≤ 30) || n == 0x85 || n == 0x2028 || n == 0x2029

/-- Put a character before the first of some lines. -/
def consLine (c : Char) : List (List Char) → List (List Char)
  | [] => [[c]]
  | l :: ls => (c :: l) :: ls

/-- The lines of a text, without their breaks. -/
def lines : List Char → List (List Char)
  | [] => []
  | '\r' :: '\n' :: cs => [] :: lines cs
  | c :: cs => if isLineBreak c then [] :: lines cs else consLine c (lines cs)

/-- A text in which every carriage return, with a line feed after it or without, is a line feed. -/
def foldNewlines : List Char → List Char
  | [] => []
  | '\r' :: '\n' :: cs => '\n' :: foldNewlines cs
  | '\r' :: cs => '\n' :: foldNewlines cs
  | c :: cs => c :: foldNewlines cs

end TreeShell.Text
