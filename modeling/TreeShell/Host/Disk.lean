import TreeShell.Host.Location
import TreeShell.Text.Lines
import TreeShell.Text.Order
import TreeShell.Text.Quoted
import TreeShell.Text.Utf8

/-!
# The host's disk

Folders and files with their bytes, as far as the program reads and writes them. Two dots lead up
from a folder that has to be there. A refusal names the location as it was given.
-/

namespace TreeShell

/-- The times that the disk keeps of a node, in milliseconds. -/
structure DiskTimes where
  changedAt : Int
  modifiedAt : Int
  deriving DecidableEq, Repr, Inhabited

/-- A file or a folder of the disk. -/
inductive DiskNode where
  | file (times : DiskTimes) (bytes : List UInt8)
  | folder (times : DiskTimes) (entries : List (String × DiskNode))
  deriving Inhabited

/-- Why the disk refuses an operation. -/
inductive HostFault where
  /-- There is nothing there. -/
  | absent
  /-- Something is there already. -/
  | taken
  /-- A file stands where a folder is needed. -/
  | notFolder
  /-- A folder stands where a file is needed. -/
  | isFolder
  /-- A name, or the whole location, is too long. -/
  | tooLong
  /-- A name holds a null character, which no name can. -/
  | nullInName
  deriving DecidableEq, Repr

/-- A refusal of the disk, with the location as it was given. -/
structure HostError where
  fault : HostFault
  shown : String
  deriving DecidableEq, Repr

/-- The number of a fault; one that the disk is not even asked about has none. -/
def HostFault.number? : HostFault → Option Nat
  | .absent => some 2
  | .taken => some 17
  | .notFolder => some 20
  | .isFolder => some 21
  | .tooLong => some 36
  | .nullInName => none

/-- The wording of a fault. -/
def HostFault.text : HostFault → String
  | .absent => "No such file or directory"
  | .taken => "File exists"
  | .notFolder => "Not a directory"
  | .isFolder => "Is a directory"
  | .tooLong => "File name too long"
  | .nullInName => "embedded null byte"

/-- What is said about a refusal of the disk. -/
def HostError.message (e : HostError) : String :=
  match e.fault.number? with
  | some number =>
    "[Errno " ++ toString number ++ "] " ++ e.fault.text ++ ": " ++ Text.quoted e.shown
  | none => e.fault.text

namespace DiskNode

/-- The times of a node. -/
def times : DiskNode → DiskTimes
  | .file times _ => times
  | .folder times _ => times

/-- Whether a node is a folder. -/
def isFolder : DiskNode → Bool
  | .file .. => false
  | .folder .. => true

/-- The entry with a name in a list of entries. -/
def findEntry (name : String) : List (String × DiskNode) → Option DiskNode
  | [] => none
  | (k, n) :: rest => if k = name then some n else findEntry name rest

/-- Entries with one of them replaced, or added at the end. -/
def setEntry (name : String) (node : DiskNode) : List (String × DiskNode) → List (String × DiskNode)
  | [] => [(name, node)]
  | (k, n) :: rest => if k = name then (k, node) :: rest else (k, n) :: setEntry name node rest

/-- The entry of a folder with a name. -/
def entry? (node : DiskNode) (name : String) : Option DiskNode :=
  match node with
  | .file .. => none
  | .folder _ entries => findEntry name entries

/-- The node that some names lead to. -/
def at? (node : DiskNode) : List String → Option DiskNode
  | [] => some node
  | name :: rest => (node.entry? name).bind fun n => n.at? rest

/-- The node with another at the place that some names lead to; the folders on the way stay. -/
def putAt (node new : DiskNode) : List String → DiskNode
  | [] => new
  | name :: rest =>
    match node with
    | .file times bytes => .file times bytes
    | .folder times entries =>
      match findEntry name entries with
      | some n => .folder times (setEntry name (n.putAt new rest) entries)
      | none =>
        match rest with
        | [] => .folder times (setEntry name new entries)
        | _ :: _ => .folder times entries

/-- The node without what some names lead to. -/
def eraseAt (node : DiskNode) : List String → DiskNode
  | [] => node
  | name :: rest =>
    match node with
    | .file times bytes => .file times bytes
    | .folder times entries =>
      match rest with
      | [] => .folder times (entries.filter fun e => e.1 ≠ name)
      | _ :: _ =>
        match findEntry name entries with
        | some n => .folder times (setEntry name (n.eraseAt rest) entries)
        | none => .folder times entries

mutual

/-- The paths below a node that itself has the path `above`; folders end in a slash. -/
def paths (above : String) : DiskNode → List String
  | .file .. => []
  | .folder _ entries => pathsAll above entries

/-- The paths of some entries of the folder with the path `above`, and those below them. -/
def pathsAll (above : String) : List (String × DiskNode) → List String
  | [] => []
  | (name, node) :: rest =>
    (above ++ name ++ (if node.isFolder then "/" else "")) ::
      (paths (above ++ name ++ "/") node ++ pathsAll above rest)

end

end DiskNode

/-- A disk with its root folder and the names that lead to the working folder. -/
structure Disk where
  root : DiskNode
  here : List String
  /-- The times that new files and folders get. -/
  times : DiskTimes
  deriving Inhabited

namespace Disk

/-- The most bytes in a name. -/
def maxName : Nat := 255

/-- The most bytes in a location. -/
def maxLocation : Nat := 4095

/-- A disk with nothing but an empty working folder. -/
def blank (times : DiskTimes) : Disk :=
  ⟨.folder times [("work", .folder times [])], ["work"], times⟩

/-- Where the names of a location start. -/
def start (d : Disk) (l : Location) : List String :=
  match l.anchor with
  | .here => d.here
  | _ => []

/-- Whether a name is too long for the disk. -/
def isLongName (name : String) : Bool := maxName < name.utf8ByteSize

/-- Follow names from the folder at `place`, which are to be there; two dots lead up. -/
def follow (d : Disk) (place : List String) : List String → Except HostFault (List String)
  | [] => .ok place
  | name :: rest =>
    match d.root.at? place with
    | none => .error .absent
    | some (.file ..) => .error .notFolder
    | some (.folder _ entries) =>
      if name = ".." then d.follow place.dropLast rest
      else if isLongName name then .error .tooLong
      else
        match DiskNode.findEntry name entries with
        | none => .error .absent
        | some _ => d.follow (place ++ [name]) rest

/-- Why the disk is not asked about a location, if it is not. -/
def unfit? (l : Location) : Option HostFault :=
  if l.holdsNull then some .nullInName
  else if maxLocation < l.text.utf8ByteSize then some .tooLong
  else none

/-- The place of what is at a location. -/
def place (d : Disk) (l : Location) : Except HostFault (List String) :=
  match unfit? l with
  | some fault => .error fault
  | none => d.follow (d.start l) l.parts

/-- The place where a location would be made or replaced, with what is there; `none` for a location
that names no entry of a folder. The folder has to be there. -/
def target (d : Disk) (l : Location) :
    Except HostFault (Option (List String × Option DiskNode)) := do
  if let some fault := unfit? l then throw fault
  match l.parts.getLast? with
  | none => return none
  | some name =>
    let folder ← d.follow (d.start l) l.parts.dropLast
    match d.root.at? folder with
    | none => throw .absent
    | some (.file ..) => throw .notFolder
    | some (.folder _ entries) =>
      if name = ".." then return none
      if isLongName name then throw .tooLong
      return some (folder ++ [name], DiskNode.findEntry name entries)

/-- The node at a location. -/
def node (d : Disk) (l : Location) : Except HostFault DiskNode := do
  match d.root.at? (← d.place l) with
  | some n => return n
  | none => throw .absent

/-- The node at a location, if there is one; a location too long to be looked for is refused. -/
def node? (d : Disk) (l : Location) : Except HostError (Option DiskNode) :=
  match d.node l with
  | .ok n => .ok (some n)
  | .error .tooLong => .error ⟨.tooLong, l.text⟩
  | .error _ => .ok none

/-- Whether there is a folder at a location. -/
def isFolder (d : Disk) (l : Location) : Except HostError Bool :=
  (d.node? l).map fun n => (n.map DiskNode.isFolder).getD false

/-- The disk with a node at a place. -/
def putAt (d : Disk) (place : List String) (n : DiskNode) : Disk :=
  { d with root := d.root.putAt n place }

/-- Make one folder. -/
def makeFolder (d : Disk) (l : Location) : Except HostFault Disk := do
  match ← d.target l with
  | some (place, none) => return d.putAt place (.folder d.times [])
  | _ => throw .taken

/-- What a refusal to make a folder comes to: nothing, if the folder is there. -/
def settle (d : Disk) (l : Location) (fault : HostFault) : Except HostError Unit :=
  match d.isFolder l with
  | .ok true => .ok ()
  | _ => .error ⟨fault, l.text⟩

/-- Make a folder in a folder that is there; a folder that is there will do. -/
def ensureFolder (d : Disk) (l : Location) : Except HostError Unit × Disk :=
  match d.makeFolder l with
  | .ok d => (.ok (), d)
  | .error .absent => (.error ⟨.absent, l.text⟩, d)
  | .error fault => (d.settle l fault, d)

/-- Make a folder and those missing above it, through at most `fuel` levels; a folder that is there
will do. Folders that are made before a refusal stay. -/
def makeFolders (d : Disk) (l : Location) : (fuel : Nat) → Except HostError Unit × Disk
  | 0 => d.ensureFolder l
  | fuel + 1 =>
    match d.makeFolder l with
    | .error .absent =>
      match d.makeFolders l.parent fuel with
      | (.error e, d) => (.error e, d)
      | (.ok _, d) => d.ensureFolder l
    | _ => d.ensureFolder l

/-- The bytes of the file at a location. -/
def readBytes (d : Disk) (l : Location) : Except HostError (List UInt8) :=
  match d.node l with
  | .ok (.file _ bytes) => .ok bytes
  | .ok (.folder ..) => .error ⟨.isFolder, l.text⟩
  | .error fault => .error ⟨fault, l.text⟩

/-- Write bytes to the file at a location; a missing file is made, its folder has to be there. -/
def writeBytes (d : Disk) (l : Location) (bytes : List UInt8) : Except HostError Disk :=
  match d.target l with
  | .ok (some (place, some (.file times _))) => .ok (d.putAt place (.file times bytes))
  | .ok (some (place, none)) => .ok (d.putAt place (.file d.times bytes))
  | .ok _ => .error ⟨.isFolder, l.text⟩
  | .error fault => .error ⟨fault, l.text⟩

/-- Write a text. -/
def writeText (d : Disk) (l : Location) (text : String) : Except HostError Disk :=
  d.writeBytes l (Text.utf8 text.toList)

/-- Take away the file at a location; that it is missing will do. -/
def remove (d : Disk) (l : Location) : Except HostError Disk :=
  match d.target l with
  | .ok (some (place, some (.file ..))) => .ok { d with root := d.root.eraseAt place }
  | .ok (some (_, none)) => .ok d
  | .ok _ => .error ⟨.isFolder, l.text⟩
  | .error .absent => .ok d
  | .error fault => .error ⟨fault, l.text⟩

/-- Make the folders above a location. -/
def makeParents (d : Disk) (l : Location) : Except HostError Unit × Disk :=
  d.makeFolders l.parent l.parts.length

/-- The paths of all that is below the working folder, in ascending order. -/
def listing (d : Disk) : List String :=
  match d.root.at? d.here with
  | some n => Text.sorted (n.paths "")
  | none => []

end Disk

/-- The text of some bytes, with its line ends folded to line feeds. -/
def readText (bytes : List UInt8) : Except Text.Utf8Error String :=
  (Text.decodeUtf8 bytes).map fun cs => String.ofList (Text.foldNewlines cs)

/-- What is said of bytes that are no text. -/
def Text.Utf8Error.message (e : Text.Utf8Error) : String :=
  "'utf-8' codec can't decode " ++
    (if e.count = 1 then
      "byte 0x" ++ String.ofList (Text.hexDigits 2 e.byte.toNat) ++ " in position " ++
        toString e.position
    else
      "bytes in position " ++ toString e.position ++ "-" ++ toString (e.position + e.count - 1)) ++
    ": " ++ e.fault.message

end TreeShell
