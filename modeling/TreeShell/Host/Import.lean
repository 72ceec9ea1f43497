import TreeShell.Host.Disk
import TreeShell.Tree.Node

/-!
# Records of the host's folders

A folder of the disk as the record of a tree: its files with their texts, its folders, all in
ascending order of their names, with the disk's times and the usual permissions. A file that is no
text is left out.
-/

namespace TreeShell

namespace DiskNode

/-- The attributes of a node of the disk in a tree. -/
def attributesOf (times : DiskTimes) (permissions : String) : Attributes :=
  ⟨times.changedAt, times.modifiedAt, .string permissions⟩

/-- The record of a file with a text. -/
def fileRecord (name : String) (times : DiskTimes) (content : String) : Json :=
  .object [("type", .string "file"), ("name", .string name), ("content", .string content),
    ("metadata", (attributesOf times Attributes.filePermissions).record)]

/-- The record of a folder, from those of its entries. -/
def folderRecord (name : String) (times : DiskTimes) (records : List (String × Json)) : Json :=
  .object [("type", .string "directory"), ("name", .string name),
    ("children", .object (Text.sortedByName records)),
    ("metadata", (attributesOf times Attributes.directoryPermissions).record)]

mutual

/-- The record of a node of the disk; a file that is no text has none. -/
def record? (name : String) : DiskNode → Option Json
  | .file times bytes => (readText bytes).toOption.map (fileRecord name times)
  | .folder times entries => some (folderRecord name times (recordAll entries))

/-- The records of some entries. -/
def recordAll : List (String × DiskNode) → List (String × Json)
  | [] => []
  | (name, node) :: rest =>
    match record? name node with
    | some r => (name, r) :: recordAll rest
    | none => recordAll rest

end

end DiskNode

/-- Why a folder gives no record. -/
inductive ImportError where
  /-- There is no folder at the location. -/
  | notFolder (location : Location)
  /-- The disk refuses. -/
  | host (error : HostError)
  deriving DecidableEq, Repr

/-- What is said of a folder that gives no record. -/
def ImportError.message : ImportError → String
  | .notFolder location => location.text ++ ": Not a directory"
  | .host error => error.message

/-- The record of the folder at a location, under a name. -/
def Disk.folderRecord (d : Disk) (l : Location) (name : String) : Except ImportError Json :=
  match d.node? l with
  | .error e => .error (.host e)
  | .ok (some (.folder times entries)) =>
    .ok (DiskNode.folderRecord name times (DiskNode.recordAll entries))
  | .ok _ => .error (.notFolder l)

end TreeShell
