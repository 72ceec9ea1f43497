import TreeShell.Json.Display

/-!
# What files hold

A file holds a text. A record may have any other value in that place, which is kept as it is: it can
be shown, copied and replaced, but not all that can be done with a text can be done with it.
-/

namespace TreeShell

/-- What a file holds: a text, or what a record had instead. -/
abbrev Content := Json

/-- Why something cannot be done with what a file holds. -/
inductive ContentError where
  /-- It has no length. -/
  | noLength (kind : String)
  /-- Nothing of another kind can be put behind it. -/
  | noJoin (kind other : String)
  /-- There is no such operation on it. -/
  | noOperation (kind operation : String)
  deriving DecidableEq, Repr

/-- What is said when something cannot be done with what a file holds. -/
def ContentError.message : ContentError → String
  | .noLength kind => "object of type '" ++ kind ++ "' has no len()"
  | .noJoin kind other =>
    if kind = "str" ∨ kind = "list" then
      "can only concatenate " ++ kind ++ " (not \"" ++ other ++ "\") to " ++ kind
    else "unsupported operand type(s) for +: '" ++ kind ++ "' and '" ++ other ++ "'"
  | .noOperation kind operation =>
    "'" ++ kind ++ "' object has no attribute '" ++ operation ++ "'"

namespace Json

/-- The number of the characters, items or fields of a value that has such. -/
def length : Json → Except ContentError Nat
  | .string s => .ok s.length
  | .array items => .ok items.length
  | .object fields => .ok fields.length
  | v => .error (.noLength v.kindName)

/-- A value with another of its kind put behind it. -/
def join : Json → Json → Except ContentError Json
  | .string a, .string b => .ok (.string (a ++ b))
  | .array a, .array b => .ok (.array (a ++ b))
  | v, w => .error (.noJoin v.kindName w.kindName)

/-- The text that an operation needs. -/
def textFor (operation : String) : Json → Except ContentError String
  | .string s => .ok s
  | v => .error (.noOperation v.kindName operation)

/-- The text that is to be counted in and then split; a list can be counted in, too. -/
def textForCounts : Json → Except ContentError String
  | .array items => textFor "split" (.array items)
  | v => textFor "count" v

end Json

end TreeShell
