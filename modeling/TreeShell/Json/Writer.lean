import TreeShell.Json.Basic
import TreeShell.Text.Quoted

/-!
# Writing values

A value is written in seven-bit characters, on one line or with every item on a line of its own,
indented by two more spaces than what holds it. Numbers with binary places are written by the
shortest decimal that reads back.
-/

namespace TreeShell.Json

/-- Numbers in saved text: digits in place from `0.0001` up to below `10 ^ 16`. -/
def numberStyle : Decimal.Style :=
  { leastInPlace := -4, largestInPlace := 15, infinite := "Infinity", undefined := "NaN" }

/-- Sixteen bits as an escape. -/
def escapeUnit (n : Nat) : List Char := '\\' :: 'u' :: Text.hexDigits 4 n

/-- A character within a written text. -/
def escapeChar (c : Char) : List Char :=
  if c = '"' then ['\\', '"']
  else if c = '\\' then ['\\', '\\']
  else if c = '\n' then ['\\', 'n']
  else if c = '\r' then ['\\', 'r']
  else if c = '\t' then ['\\', 't']
  else if c = '\x0c' then ['\\', 'f']
  else if c = '\x08' then ['\\', 'b']
  else if 0x20 ≤ c.toNat ∧ c.toNat < 0x7F then [c]
  else if c.toNat < 0x10000 then escapeUnit c.toNat
  else
    let n := c.toNat - 0x10000
    escapeUnit (0xD800 + n / 1024) ++ escapeUnit (0xDC00 + n % 1024)

/-- A text as it is written. -/
def writeString (s : String) : String :=
  String.ofList ('"' :: s.toList.flatMap escapeChar ++ ['"'])

/-- A whole number as it is written. -/
def writeInt (n : Int) : String :=
  if n < 0 then "-" ++ toString n.natAbs else toString n.natAbs

/-- A value without items, as it is written. -/
def writeAtom : Json → String
  | .null => "null"
  | .bool true => "true"
  | .bool false => "false"
  | .int n => writeInt n
  | .float x => x.text numberStyle
  | .string s => writeString s
  | .array _ => "[]"
  | .object _ => "\x7b\x7d"

mutual

/-- A value on one line. -/
def compact : Json → String
  | .array (item :: items) => "[" ++ compact item ++ compactItems items ++ "]"
  | .object ((k, v) :: fields) =>
    "\x7b" ++ writeString k ++ ": " ++ compact v ++ compactFields fields ++ "\x7d"
  | v => writeAtom v

/-- Further items on one line. -/
def compactItems : List Json → String
  | [] => ""
  | item :: items => ", " ++ compact item ++ compactItems items

/-- Further fields on one line. -/
def compactFields : List (String × Json) → String
  | [] => ""
  | (k, v) :: fields => ", " ++ writeString k ++ ": " ++ compact v ++ compactFields fields

end

/-- A new line, indented for `depth` levels. -/
def newLine (depth : Nat) : String := "\n" ++ String.ofList (List.replicate (2 * depth) ' ')

mutual

/-- A value with every item on a line of its own, inside `depth` levels. -/
def prettyAt (depth : Nat) : Json → String
  | .array (item :: items) =>
    "[" ++ newLine (depth + 1) ++ prettyAt (depth + 1) item ++ prettyItems (depth + 1) items ++
      newLine depth ++ "]"
  | .object ((k, v) :: fields) =>
    "\x7b" ++ newLine (depth + 1) ++ writeString k ++ ": " ++ prettyAt (depth + 1) v ++
      prettyFields (depth + 1) fields ++ newLine depth ++ "\x7d"
  | v => writeAtom v

/-- Further items, each on a line of its own. -/
def prettyItems (depth : Nat) : List Json → String
  | [] => ""
  | item :: items => "," ++ newLine depth ++ prettyAt depth item ++ prettyItems depth items

/-- Further fields, each on a line of its own. -/
def prettyFields (depth : Nat) : List (String × Json) → String
  | [] => ""
  | (k, v) :: fields =>
    "," ++ newLine depth ++ writeString k ++ ": " ++ prettyAt depth v ++ prettyFields depth fields

end

/-- A value with every item on a line of its own. -/
def pretty (v : Json) : String := prettyAt 0 v

end TreeShell.Json
