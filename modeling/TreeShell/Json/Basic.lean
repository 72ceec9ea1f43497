import TreeShell.Decimal.Shortest

/-!
# Values of saved text

The values that a saved tree is written with: nothing, truth values, whole numbers of any size,
numbers with fifty-three binary places, texts, lists, and objects whose fields keep their order.
-/

namespace TreeShell

/-- A value of saved text. -/
inductive Json where
  | null
  | bool (b : Bool)
  | int (n : Int)
  | float (x : Decimal.Double)
  | string (s : String)
  | array (items : List Json)
  | object (fields : List (String × Json))
  deriving Inhabited

namespace Json

/-- The value of a field in a list of fields: that of the first with the name. -/
def find? (name : String) : List (String × Json) → Option Json
  | [] => none
  | (k, v) :: rest => if k = name then some v else find? name rest

/-- The value of a field of an object. -/
def field? (name : String) : Json → Option Json
  | .object fields => find? name fields
  | _ => none

/-- Whether a value is nothing, false, zero or empty. -/
def isEmptyLike : Json → Bool
  | .null | .bool false | .int 0 | .string "" | .array [] | .object [] => true
  | .float (.finite _ 0 _) => true
  | _ => false

/-- A field whose name is put in again takes the new value and keeps its place. -/
def setField (name : String) (value : Json) : List (String × Json) → List (String × Json)
  | [] => [(name, value)]
  | (k, v) :: rest => if k = name then (k, value) :: rest else (k, v) :: setField name value rest

end Json

end TreeShell
