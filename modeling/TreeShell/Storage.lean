import TreeShell.Host.Import
import TreeShell.Json.Reader
import TreeShell.Json.Writer

/-!
# Stores

Where the record of a tree is kept between sessions: in a cell of memory, or in a file of the host
as text. A cell counts its saves, and can be told which of its coming saves fail.
-/

namespace TreeShell

/-- A place in memory for a record. -/
structure Cell where
  record : Option Json
  /-- How often a record was put in. -/
  saves : Nat
  /-- What becomes of the coming saves: a failure, or none; after these, none fails. -/
  outcomes : List (Option HostError)
  deriving Inhabited

/-- The disk of the host, and the cells of memory. -/
structure Storage where
  disk : Disk
  cells : List Cell
  deriving Inhabited

/-- A place for the record of a tree. -/
inductive Store where
  /-- A cell of memory, by its number. -/
  | memory (cell : Nat)
  /-- A file of the host. -/
  | file (location : Location)
  deriving DecidableEq, Repr

/-- Why a record cannot be loaded. -/
inductive LoadError where
  /-- The disk refuses. -/
  | host (error : HostError)
  /-- The file is no text. -/
  | notText (error : Text.Utf8Error)
  /-- The text is no value. -/
  | malformed (error : Json.ReadError)
  /-- The value has no fields. -/
  | notObject (location : Location)

/-- What is said when a record cannot be loaded. -/
def LoadError.message : LoadError → String
  | .host error => error.message
  | .notText error => error.message
  | .malformed error => error.message
  | .notObject location => location.text ++ ": expected a JSON object"

/-- Put in a new cell of memory. -/
def Storage.addCell (s : Storage) (record : Option Json) : Storage × Store :=
  ({ s with cells := s.cells ++ [⟨record, 0, []⟩] }, .memory s.cells.length)

/-- The record in a file of the host; `none` if there is no file. -/
def Disk.loadRecord (d : Disk) (l : Location) : Except LoadError (Option Json) := do
  match ← (d.node? l).mapError .host with
  | none => return none
  | some _ =>
    let bytes ← (d.readBytes l).mapError .host
    let text ← (readText bytes).mapError .notText
    match ← (Json.read text).mapError .malformed with
    | .object fields => return some (.object fields)
    | _ => throw (.notObject l)

/-- Write a record to a file of the host; the folders above it are made. -/
def Disk.saveRecord (d : Disk) (l : Location) (record : Json) : Except HostError Unit × Disk :=
  match d.makeParents l with
  | (.error e, d) => (.error e, d)
  | (.ok _, d) =>
    match d.writeText l record.pretty with
    | .ok d => (.ok (), d)
    | .error e => (.error e, d)

/-- Put a record in a cell, unless the save is to fail. -/
def Cell.save (c : Cell) (record : Json) : Except HostError Unit × Cell :=
  match c.outcomes with
  | some e :: rest => (.error e, { c with outcomes := rest })
  | none :: rest => (.ok (), ⟨some record, c.saves + 1, rest⟩)
  | [] => (.ok (), ⟨some record, c.saves + 1, []⟩)

namespace Store

/-- The record in a store. -/
def load (st : Store) (s : Storage) : Except LoadError (Option Json) :=
  match st with
  | .memory cell => .ok ((s.cells[cell]?).bind Cell.record)
  | .file location => s.disk.loadRecord location

/-- Replace the record in a store. -/
def save (st : Store) (record : Json) (s : Storage) : Except HostError Unit × Storage :=
  match st with
  | .memory cell =>
    match s.cells[cell]? with
    | none => (.ok (), s)
    | some c => ((c.save record).1, { s with cells := s.cells.set cell (c.save record).2 })
  | .file location =>
    ((s.disk.saveRecord location record).1,
      { s with disk := (s.disk.saveRecord location record).2 })

/-- Forget the record in a store. -/
def clear (st : Store) (s : Storage) : Except HostError Unit × Storage :=
  match st with
  | .memory cell =>
    (.ok (), { s with cells := s.cells.modify cell fun c => { c with record := none } })
  | .file location =>
    match s.disk.remove location with
    | .ok disk => (.ok (), { s with disk })
    | .error e => (.error e, s)

/-- Why a record can never be put in a store, if it cannot: no file has a location with a null
character in it. -/
def refusal? (st : Store) : Option HostError :=
  match st with
  | .memory _ => none
  | .file location => if location.holdsNull then some ⟨.nullInName, location.text⟩ else none

/-- How often a record was put in a cell of memory; other stores do not count. -/
def saves? (st : Store) (s : Storage) : Option Nat :=
  match st with
  | .memory cell => (s.cells[cell]?).map Cell.saves
  | .file _ => none

end Store

end TreeShell
