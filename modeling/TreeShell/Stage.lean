import TreeShell.Line.Redirection
import TreeShell.Wiring

/-!
# Stages

A stage of a line made ready to run. It starts with three streams as its descriptors 0, 1 and 2; its
redirections are then applied in the order in which they are written, each to the table as it is at
that point. A file is opened when its redirection is applied: one to be written is made or emptied,
one to be read is read.
-/

namespace TreeShell

/-- The streams of a stage. -/
structure Ends where
  input : Nat
  output : Nat
  errors : Nat
  deriving DecidableEq, Repr, Inhabited

/-- A stage that is ready to run. -/
structure Stage where
  /-- The command, if there is one. -/
  name : Option String
  arguments : List String
  ends : Ends
  /-- The descriptors that a redirection is for. -/
  redirected : List Nat
  deriving DecidableEq, Repr, Inhabited

/-- Whether the output of a stage is redirected. -/
def Stage.outputRedirected (s : Stage) : Bool := s.redirected.contains 1

/-- Why a stage cannot be made ready. -/
inductive StageError where
  /-- It cannot be read. -/
  | line (error : LineError)
  /-- A descriptor to be copied leads nowhere. -/
  | badDescriptor (redirection : Redirection)
  /-- The operator is not supported. -/
  | unsupported (redirection : Redirection)
  /-- A file cannot be opened. -/
  | file (error : PathError)
  /-- What a file holds does not allow it to be written behind. -/
  | content (error : ContentError)
  deriving DecidableEq, Repr

/-- What a refusal of the tree is to a stage. -/
def StageError.ofPathError : PathError → StageError
  | .content error => .content error
  | error => .file error

/-- What is said about a stage that cannot be made ready. -/
def StageError.message : StageError → String
  | .line error => error.message
  | .badDescriptor r => r.text ++ ": Bad file descriptor"
  | .unsupported r => r.text ++ ": read-write redirection is not supported"
  | .file error => error.message
  | .content error => error.message

/-- Streams by descriptor. -/
abbrev Table := OrderedMap Nat Nat

namespace Table

/-- The table that a stage starts with. -/
def ofEnds (ends : Ends) : Table :=
  OrderedMap.ofList [(0, ends.input), (1, ends.output), (2, ends.errors)]

/-- The three streams of a table, as far as it has them. -/
def ends (table : Table) (otherwise : Ends) : Ends :=
  ⟨table.getD 0 otherwise.input, table.getD 1 otherwise.output, table.getD 2 otherwise.errors⟩

end Table

namespace Redirection

/-- Open the file that a redirection leads to. -/
def openFile (r : Redirection) (path cwd : String) (w : Wiring) :
    Except StageError Nat × Wiring :=
  match r.operator with
  | .readWrite => (.error (.unsupported r), w)
  | .read =>
    match w.volume.tree.content path cwd with
    | .error e => (.error (.ofPathError e), w)
    | .ok content =>
      let (w, number) := w.addKeeping content.plain
      (.ok number, w)
  | .write | .append =>
    match w.volume.perform cwd (.write path (.string "") (r.operator = .append)) with
    | (.error e, volume) => (.error (.ofPathError e), { w with volume })
    | (.ok _, volume) =>
      let (w, number) := { w with volume }.add (.file path cwd)
      (.ok number, w)

/-- The stream that a redirection leads its descriptor to. -/
def connect (r : Redirection) (table : Table) (cwd : String) (w : Wiring) :
    Except StageError Nat × Wiring :=
  match r.operator, r.target with
  | .readWrite, _ => (.error (.unsupported r), w)
  | _, .descriptor n =>
    match table.get? n with
    | none => (.error (.badDescriptor r), w)
    | some number => (.ok number, w)
  | _, .file path => r.openFile path cwd w

/-- Apply redirections to a table, one after another. -/
def connectAll (cwd : String) : List Redirection → Table → Wiring →
    Except StageError Table × Wiring
  | [], table, w => (.ok table, w)
  | r :: rest, table, w =>
    match r.connect table cwd w with
    | (.error e, w) => (.error e, w)
    | (.ok number, w) => connectAll cwd rest (table.set r.descriptor number) w

end Redirection

/-- Make a stage ready that starts with some streams. -/
def Stage.resolve (command : String) (defaults : Ends) (cwd : String) (w : Wiring) :
    Except StageError Stage × Wiring :=
  match Parts.ofStage command with
  | .error e => (.error (.line e), w)
  | .ok parts =>
    match Redirection.connectAll cwd parts.redirections (Table.ofEnds defaults) w with
    | (.error e, w) => (.error e, w)
    | (.ok table, w) =>
      (.ok
        { name := parts.name, arguments := parts.arguments, ends := table.ends defaults
          redirected := parts.redirections.map Redirection.descriptor }, w)

end TreeShell
