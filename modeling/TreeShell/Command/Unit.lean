import TreeShell.Command.Registry
import TreeShell.Volume

/-!
# Unit files

A command can be run while there is a unit file for it: a file named after it, whose first line
names the registered command behind it.
-/

namespace TreeShell

namespace Command

/-- What every unit file begins with. -/
def unitHeader : String := "#!py-sh "

/-- How the names of unit files end. -/
def unitSuffix : String := ".cmd"

/-- The unit file of a command. -/
def unitSource (c : Command) : String :=
  unitHeader ++ c.name ++ "\n# " ++ c.description ++ "\n"

/-- The path of the unit file for a name. -/
def unitPath (name bin : String) : String :=
  Path.format (Path.resolve bin "/" ++ [name ++ unitSuffix])

end Command

/-- Why a name gives no command. -/
inductive UnitError where
  /-- The name is empty or holds a slash. -/
  | badName (name : String)
  /-- The unit file cannot be read. -/
  | unreadable (name : String) (error : PathError)
  /-- The unit file does not begin as it has to. -/
  | noHeader (name path : String)
  /-- The unit file names no registered command. -/
  | unknownEntry (name entry : String)
  /-- The unit file holds no text. -/
  | content (error : ContentError)
  deriving DecidableEq, Repr

/-- What is said of a name that gives no command. -/
def UnitError.message : UnitError → String
  | .badName name => name ++ ": not a valid command name"
  | .unreadable name error => name ++ ": cannot read unit: " ++ error.message
  | .noHeader name path =>
    name ++ ": " ++ path ++ ": missing '" ++ Text.trimmed Command.unitHeader ++ "' header"
  | .unknownEntry name entry => name ++ ": unknown entry " ++ Text.quoted entry
  | .content error => error.message

namespace Registry

/-- The first line of a text. -/
def firstLine (text : String) : List Char := (Text.cutFirst '\n' text.toList).1

/-- The command that a name gives through its unit file. -/
def load (r : Registry) (t : Tree) (name bin : String) : Except UnitError Command :=
  if name = "" ∨ '/' ∈ name.toList then .error (.badName name)
  else
    let path := Command.unitPath name bin
    match t.content path "/" with
    | .error e => .error (.unreadable name e)
    | .ok content =>
      match content.textFor "split" with
      | .error e => .error (.content e)
      | .ok source =>
        match Text.dropStart? Command.unitHeader.toList (firstLine source) with
        | none => .error (.noHeader name path)
        | some rest =>
          let entry := String.ofList (Text.trim rest)
          match r.get? entry with
          | some c => .ok c
          | none => .error (.unknownEntry name entry)

end Registry

/-- The names that have a unit file in a directory, in ascending order. -/
def Tree.unitNames (t : Tree) (bin : String) : List String :=
  match t.childNames bin "/" with
  | .error _ => []
  | .ok entries =>
    Text.sorted
      ((entries.filter fun entry =>
        Text.hasTail entry Command.unitSuffix && t.isFile (bin ++ "/" ++ entry) "/").map
        fun entry => Text.withoutTail entry Command.unitSuffix)

namespace Volume

/-- The command that a name gives, with a note in the journal if it gives none; a unit file that
holds no text is not noted. -/
def loadCommand (v : Volume) (r : Registry) (name bin : String) :
    Except UnitError Command × Volume :=
  match r.load v.tree name bin with
  | .ok c => (.ok c, v)
  | .error (.content e) => (.error (.content e), v)
  | .error e => (.error e, v.note .warning .loader e.message)

/-- Write the unit files of the commands that have none; the names of those, in order. -/
def installAll (bin : String) : List Command → Volume → Except PathError (List String) × Volume
  | [], v => (.ok [], v)
  | c :: rest, v =>
    let path := Command.unitPath c.name bin
    if v.tree.contains path "/" then installAll bin rest v
    else
      match v.perform "/" (.write path (.string c.unitSource) false) with
      | (.error e, v) => (.error e, v)
      | (.ok _, v) =>
        match installAll bin rest v with
        | (.error e, v) => (.error e, v)
        | (.ok names, v) => (.ok (c.name :: names), v)

/-- Make the directory for unit files, and write those that are missing. -/
def install (v : Volume) (r : Registry) (bin : String) :
    Except PathError (List String) × Volume :=
  match v.perform "/" (.makeDirectories bin) with
  | (.error e, v) => (.error e, v)
  | (.ok _, v) => installAll bin r.toList v

end Volume

end TreeShell
