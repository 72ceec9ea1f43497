import TreeShell.Host.Location

/-!
# Settings

Who uses the program, and where the tree is. What is left out has a usual value: the home directory
is named after the user, and the unit files are below it.
-/

namespace TreeShell

/-- The settings of a session. -/
structure Config where
  user : String
  hostname : String
  home : String
  /-- The directory of unit files. -/
  bin : String
  /-- The file that the tree is saved to; in memory if there is none. -/
  store : Option Location
  /-- Where the first tree comes from. -/
  seed : Option Location
  deriving DecidableEq, Repr

namespace Config

/-- The usual user. -/
def usualUser : String := "guest"

/-- The usual name of the host. -/
def usualHostname : String := "py-sh"

/-- The program that a session names as its shell. -/
def shellPath : String := "/bin/py-sh"

/-- Settings, with an empty home directory or directory of unit files taken for the usual one. -/
def make (user hostname home bin : String) (store seed : Option Location) : Config :=
  let home := if home = "" then "/home/" ++ user else home
  let bin := if bin = "" then Text.withoutEndSlashes home ++ "/.local/bin" else bin
  ⟨user, hostname, home, bin, store, seed⟩

/-- The usual settings. -/
def usual : Config := make usualUser usualHostname "" "" none none

/-- A location from a variable, which may begin with a tilde; none if it is unset or empty. -/
def locationOf (hostHome : String) : Option String → Except Location.HomeError (Option Location)
  | none | some "" => .ok none
  | some s => ((Location.ofString s).expand hostHome).map some

/-- A variable that is set and not empty, or a usual value. -/
def nonEmptyOr (value : Option String) (usual : String) : String :=
  match value with
  | none | some "" => usual
  | some value => value

/-- The settings that the host's variables give. -/
def ofVariables (hostHome : String) (get? : String → Option String) :
    Except Location.HomeError Config := do
  let store ← locationOf hostHome (get? "PY_SH_STORAGE")
  let seed ← locationOf hostHome (get? "PY_SH_SEED")
  return make (nonEmptyOr (get? "PY_SH_USER") usualUser)
    (nonEmptyOr (get? "PY_SH_HOSTNAME") usualHostname) ((get? "PY_SH_HOME").getD "") "" store seed

/-- The names of the host's variables that give settings. -/
def variableNames : List String :=
  ["PY_SH_USER", "PY_SH_HOSTNAME", "PY_SH_HOME", "PY_SH_STORAGE", "PY_SH_SEED"]

/-- The variables that a session starts with. -/
def startVariables (c : Config) : List (String × String) :=
  [("HOME", c.home), ("USER", c.user), ("SHELL", shellPath), ("PWD", c.home), ("PATH", c.bin),
    ("HOSTNAME", c.hostname)]

end Config

end TreeShell
