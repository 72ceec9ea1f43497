import TreeShell.Json.Writer

/-!
# Showing values in messages

A value as messages show it: texts between quotes, the truth values and nothing as words with a
capital letter, lists and objects in brackets with commas.
-/

namespace TreeShell.Json

/-- Numbers in messages: written as in saved text, with words for the exceptional ones. -/
def displayStyle : Decimal.Style :=
  { leastInPlace := -4, largestInPlace := 15, infinite := "inf", undefined := "nan" }

mutual

/-- A value as messages show it. -/
def display : Json → String
  | .null => "None"
  | .bool true => "True"
  | .bool false => "False"
  | .int n => writeInt n
  | .float x => x.text displayStyle
  | .string s => Text.quoted s
  | .array [] => "[]"
  | .array (item :: items) => "[" ++ display item ++ displayItems items ++ "]"
  | .object [] => "\x7b\x7d"
  | .object ((k, v) :: fields) =>
    "\x7b" ++ Text.quoted k ++ ": " ++ display v ++ displayFields fields ++ "\x7d"

/-- Further items as messages show them. -/
def displayItems : List Json → String
  | [] => ""
  | item :: items => ", " ++ display item ++ displayItems items

/-- Further fields as messages show them. -/
def displayFields : List (String × Json) → String
  | [] => ""
  | (k, v) :: fields => ", " ++ Text.quoted k ++ ": " ++ display v ++ displayFields fields

end

/-- A value as plain text: a text stands for itself, anything else is shown as in messages. -/
def plain : Json → String
  | .string s => s
  | v => display v

/-- The kind of a value as messages name it. -/
def kindName : Json → String
  | .null => "NoneType"
  | .bool _ => "bool"
  | .int _ => "int"
  | .float _ => "float"
  | .string _ => "str"
  | .array _ => "list"
  | .object _ => "dict"

end TreeShell.Json
