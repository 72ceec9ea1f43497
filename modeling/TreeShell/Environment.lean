import TreeShell.OrderedMap
import TreeShell.Text.Blank
import TreeShell.Text.Quoted

/-!
# Variables

The variables of a session, in the order in which they were first set. A name has to be writable as
`NAME=VALUE`: it is not empty and holds no equals sign and no blank.
-/

namespace TreeShell

/-- Whether a name can be that of a variable. -/
def isVariableName (name : String) : Bool :=
  !name.isEmpty && name.toList.all fun c => c != '=' && !Text.isBlank c

/-- What is said of a name that no variable can have. -/
def invalidVariable (name : String) : String := "invalid variable name: " ++ Text.quoted name

/-- The variables of a session. -/
structure Environment where
  vars : OrderedMap String String
  deriving DecidableEq, Inhabited

namespace Environment

/-- No variables. -/
def empty : Environment := ⟨∅⟩

/-- The value of a variable. -/
def get? (env : Environment) (name : String) : Option String := env.vars.get? name

/-- The value of a variable; one that is missing or empty has the value `default`. -/
def nonEmptyOr (env : Environment) (name default : String) : String :=
  match env.get? name with
  | none | some "" => default
  | some value => value

/-- Set a variable; `none` for a name that no variable can have. -/
def set? (env : Environment) (name value : String) : Option Environment :=
  if isVariableName name then some ⟨env.vars.set name value⟩ else none

/-- Take a variable away. -/
def erase (env : Environment) (name : String) : Environment := ⟨env.vars.erase name⟩

/-- Set variables one after another, as far as the first bad name; that name, if there is one, and
the variables then. -/
def setAll (env : Environment) : List (String × String) → Option String × Environment
  | [] => (none, env)
  | (name, value) :: rest =>
    match env.set? name value with
    | some env => env.setAll rest
    | none => (some name, env)

/-- The variables of a list of settings, or the first bad name. -/
def ofList (l : List (String × String)) : Except String Environment :=
  match empty.setAll l with
  | (none, env) => .ok env
  | (some name, _) => .error name

/-- Whether the same variables are set to the same values, in any order. -/
def agrees (env : Environment) (other : OrderedMap String String) : Bool :=
  env.vars.size == other.size && env.vars.entries.all fun (k, v) => other.get? k == some v

end Environment

end TreeShell
