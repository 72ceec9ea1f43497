import TreeShell.Session.Basic

/-!
# Completion

What the end of a line could become. Only the text after the last bar matters. Its first word is a
command and becomes the name of a unit file; every other word is a path, and the part after its last
slash becomes the name of an entry of the directory before it.
-/

namespace TreeShell

/-- What the end of a line could become. -/
inductive Completion where
  /-- One thing: the whole new line. -/
  | complete (line : String)
  /-- Several things: their names, and what stands before each of them in the word. -/
  | suggestions (names : List String) (base : String)
  deriving DecidableEq, Repr

/-- The end of a line that is to be completed. -/
structure LineEnd where
  /-- The line without the word. -/
  before : List Char
  /-- The word at the end; empty if a new one begins there. -/
  word : List Char
  /-- Whether the word is a command. -/
  isCommand : Bool
  deriving DecidableEq, Repr

/-- The end of a line. -/
def LineEnd.of (line : List Char) : LineEnd :=
  let stage := (Text.cutLast '|' line).2
  let words := Text.words stage
  match words.getLast?, stage.getLast? with
  | some word, some last =>
    if Text.isBlank last then ⟨line, [], false⟩
    else ⟨line.take (line.length - word.length), word, words.length = 1⟩
  | _, _ => ⟨line, [], true⟩

/-- A path that is to be completed. -/
structure PathEnd where
  /-- The part up to the last slash, with it. -/
  base : List Char
  /-- The directory that the part before the last slash names. -/
  directory : List Char
  /-- The part after the last slash. -/
  start : List Char
  deriving DecidableEq, Repr

/-- A word as a path that is to be completed. -/
def PathEnd.of (word : List Char) : PathEnd :=
  match Text.cutLast '/' word with
  | (none, start) => ⟨[], ['.'], start⟩
  | (some [], start) => ⟨['/'], ['/'], start⟩
  | (some before, start) => ⟨before ++ ['/'], before, start⟩

namespace Session

/-- The names that begin with a text, in the order given. -/
def matching (start : List Char) (names : List String) : List String :=
  names.filter fun name => Text.startsWith start name.toList

/-- What a command at the end of a line could become. -/
def completeCommand (s : Session) (e : LineEnd) : Option Completion :=
  match matching e.word s.available with
  | [] => none
  | [name] => some (.complete (String.ofList e.before ++ name ++ " "))
  | names => some (.suggestions (Text.sorted names) "")

/-- What a path at the end of a line could become. -/
def completePath (s : Session) (e : LineEnd) : Option Completion :=
  let p := PathEnd.of e.word
  let place :=
    Path.format (Path.resolve (s.expandHome (String.ofList p.directory)) s.cwd)
  let tree := s.volume.tree
  match tree.childNames place "/" with
  | .error _ => none
  | .ok entries =>
    match matching p.start entries with
    | [] => none
    | [name] =>
      some (.complete (String.ofList e.before ++ String.ofList p.base ++ name ++
        (if tree.isDirectory name place then "/" else " ")))
    | names =>
      some (.suggestions
        (names.map fun name => if tree.isDirectory name place then name ++ "/" else name)
        (String.ofList p.base))

/-- What the end of a line could become, if anything. -/
def complete (s : Session) (line : String) : Option Completion :=
  let e := LineEnd.of line.toList
  if e.isCommand then s.completeCommand e else s.completePath e

/-- The last part of a text, from a position that may be counted from its end. -/
def fromPosition (position : Int) (cs : List Char) : List Char :=
  if position < 0 then cs.drop (cs.length - position.natAbs) else cs.drop position.toNat

/-- The first part of a text, up to a position that may be counted from its end. -/
def upToPosition (position : Int) (cs : List Char) : List Char :=
  if position < 0 then cs.take (cs.length - position.natAbs) else cs.take position.toNat

/-- What could stand in the place of a word at the end of a line. -/
def candidates (s : Session) (word line : String) : List String :=
  match s.complete line with
  | none => []
  | some (.complete value) =>
    let start := (line.length : Int) - word.length
    [String.ofList (Text.trimEndOf ' ' (fromPosition start value.toList))]
  | some (.suggestions names base) => names.map (base ++ ·)

/-- The characters at which the line editor ends a word. -/
def wordDelimiters : String := " \t\n|<>"

/-- What the line editor is told about its keys. -/
def keyBindings : List String := ["tab: complete"]

/-- What the line editor offers for a word, when the line before the cursor ends at a position. -/
def offers (s : Session) (line : String) (position : Int) (word : String) : List String :=
  s.candidates word (String.ofList (upToPosition position line.toList))

end Session

end TreeShell
