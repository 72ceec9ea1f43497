import TreeShell.Command.Unit
import TreeShell.Environment
import TreeShell.Line.Option

/-!
# Sessions

The state between two lines: the volume, the variables, the commands, the aliases and the lines run
so far. The working directory is the variable `PWD`; it is changed within the home directory only.
-/

namespace TreeShell

/-- What a command was given, as the reporting command tells it. -/
structure Report where
  cwd : String
  env : OrderedMap String String
  arguments : List String
  options : Options
  words : List String
  input : String
  deriving Inhabited

/-- The state between two lines. -/
structure Session where
  volume : Volume
  env : Environment
  registry : Registry
  aliases : OrderedMap String String
  /-- The lines run so far, the oldest first. -/
  history : List String
  /-- How often the display was to be cleared. -/
  clears : Nat
  /-- The reports made so far, the oldest first. -/
  reports : List Report
  deriving Inhabited

/-- The aliases that a session starts with. -/
def usualAliases : OrderedMap String String :=
  OrderedMap.ofList [("aboutme", "whoami"), ("intro", "whoami"), ("cls", "clear")]

/-- Why the working directory is not changed. -/
inductive ChangeError where
  /-- There is no such directory. -/
  | path (error : PathError)
  /-- The directory is not within the home directory. -/
  | outside (given home : String)
  deriving DecidableEq, Repr

/-- What is said when the working directory is not changed. -/
def ChangeError.message : ChangeError → String
  | .path error => error.message
  | .outside given home => given ++ ": outside of " ++ home

namespace Session

/-- A session at its start. -/
def start (volume : Volume) (env : Environment) (registry : Registry)
    (aliases : OrderedMap String String) : Session :=
  ⟨volume, env, registry, aliases, [], 0, []⟩

/-- The working directory. -/
def cwd (s : Session) : String := s.env.nonEmptyOr "PWD" "/"

/-- The home directory. -/
def home (s : Session) : String := s.env.nonEmptyOr "HOME" "/"

/-- The directory of unit files. -/
def bin (s : Session) : String := s.env.nonEmptyOr "PATH" ""

/-- A path as the prompt shows it: with a tilde for the home directory. -/
def displayPath (s : Session) (path : String) : String :=
  if path = s.home then "~"
  else if s.home ≠ "/" ∧ Text.hasStart path (s.home ++ "/") then
    "~" ++ Text.withoutStart path s.home
  else path

/-- The prompt: the user, the host and the working directory. -/
def prompt (s : Session) : String :=
  s.env.vars.getD "USER" "" ++ "@" ++ s.env.vars.getD "HOSTNAME" "" ++ ":" ++
    s.displayPath s.cwd ++ "$ "

/-- A path with a leading tilde taken for the home directory. -/
def expandHome (s : Session) (path : String) : String :=
  if path = "~" ∨ Text.hasStart path "~/" then s.home ++ String.ofList (path.toList.drop 1)
  else path

/-- Whether a path from the root is that of the home directory or below it. -/
def insideHome (s : Session) (path : String) : Bool :=
  let home := Text.withoutEndSlashes s.home
  path == (if home = "" then "/" else home) || Text.hasStart path (home ++ "/")

/-- Where a change of the working directory leads. -/
def directoryAt (s : Session) (path : String) : Except ChangeError String :=
  let target := Path.format (Path.resolve (s.expandHome path) s.cwd)
  if !s.volume.tree.contains target "/" then .error (.path (.notFound path))
  else if !s.volume.tree.isDirectory target "/" then .error (.path (.notDirectory path))
  else if !s.insideHome target then .error (.outside path s.home)
  else .ok target

/-- Change the working directory. -/
def changeDirectory (s : Session) (path : String) : Except ChangeError String × Session :=
  match s.directoryAt path with
  | .error e => (.error e, s)
  | .ok target => (.ok target, { s with env := ⟨s.env.vars.set "PWD" target⟩ })

/-- Define an alias. -/
def setAlias (s : Session) (name expansion : String) : Session :=
  { s with aliases := s.aliases.set name expansion }

/-- Remove an alias, and tell whether there was one. -/
def removeAlias (s : Session) (name : String) : Bool × Session :=
  (s.aliases.contains name, { s with aliases := s.aliases.erase name })

/-- A stage with its first word replaced, if that is an alias. -/
def expandAlias (s : Session) (command : String) : String :=
  match Text.firstWord command.toList with
  | none => command
  | some (word, rest) =>
    match s.aliases.get? (String.ofList word) with
    | none => command
    | some expansion =>
      match rest with
      | none => expansion
      | some rest => expansion ++ " " ++ String.ofList rest

/-- The names that have a unit file. -/
def available (s : Session) : List String := s.volume.tree.unitNames s.bin

/-- The session with something noted in its journal. -/
def note (s : Session) (level : Level) (source : Source) (message : String) : Session :=
  { s with volume := s.volume.note level source message }

/-- The session at a time. -/
def atTime (s : Session) (now : Int) : Session :=
  { s with volume := { s.volume with clock := now } }

end Session

end TreeShell
