import TreeShell.OrderedMap
import TreeShell.Path
import TreeShell.Text.Order
import TreeShell.Tree.Node
import TreeShell.Tree.PathError

/-!
# Trees of numbered inodes

Every file and directory of a tree is an inode with a number of its own; a directory knows its
entries by name and number. The name of a node is not in the node, and a moved node keeps its
number. A path is followed from the root, one entry at a time.
-/

namespace TreeShell

/-- What an inode holds. -/
inductive Body where
  /-- What a file holds. -/
  | file (content : Content)
  /-- The entries of a directory: names and numbers. -/
  | directory (children : OrderedMap String Nat)
  deriving Inhabited

/-- A file or a directory in a tree. -/
structure Inode where
  attributes : Attributes
  body : Body
  deriving Inhabited

namespace Inode

/-- The size that every directory has. -/
def directorySize : Nat := 4096

/-- Whether an inode is a directory. -/
def isDirectory (i : Inode) : Bool :=
  match i.body with
  | .file _ => false
  | .directory _ => true

/-- The entries of an inode; a file has none. -/
def children (i : Inode) : OrderedMap String Nat :=
  match i.body with
  | .file _ => ∅
  | .directory children => children

/-- The length of what a file holds, and one fixed size for directories. -/
def size (i : Inode) : Except ContentError Nat :=
  match i.body with
  | .file content => content.length
  | .directory _ => .ok directorySize

/-- The inode changed at a time. -/
def modified (i : Inode) (now : Int) : Inode :=
  { i with attributes := { i.attributes with modifiedAt := now } }

end Inode

/-- Numbered inodes, the number of the root among them, and the number that comes next. -/
structure Tree where
  nodes : OrderedMap Nat Inode
  root : Nat
  next : Nat
  deriving Inhabited

/-- What is told about a node. -/
structure Stat where
  /-- The last segment of its path. -/
  name : String
  isDirectory : Bool
  size : Nat
  attributes : Attributes
  deriving Inhabited

namespace Tree

/-- Put in an inode under the next number. -/
def alloc (t : Tree) (i : Inode) : Tree × Nat :=
  ({ t with nodes := t.nodes.set t.next i, next := t.next + 1 }, t.next)

/-- Replace the inode of a number. -/
def put (t : Tree) (number : Nat) (i : Inode) : Tree :=
  { t with nodes := t.nodes.set number i }

/-- The tree without inodes. -/
def bare : Tree := ⟨∅, 0, 0⟩

/-- The tree that holds an empty directory and nothing else. -/
def empty (now : Int) : Tree := (bare.alloc ⟨.ofDirectory now, .directory ∅⟩).1

/-- The number of an entry of the directory with a number. -/
def child? (t : Tree) (number : Nat) (name : String) : Option Nat :=
  (t.nodes.get? number).bind fun i => i.children.get? name

/-- The number of the node that some segments lead to from the node with a number. -/
def walk (t : Tree) : (number : Nat) → Segments → Option Nat
  | number, [] => some number
  | number, name :: rest => (t.child? number name).bind fun number => t.walk number rest

/-- The number of the node at a place. -/
def find? (t : Tree) (place : Segments) : Option Nat := t.walk t.root place

/-- The node at a place: its number and its inode. -/
def lookup (t : Tree) (place : Segments) : Option (Nat × Inode) :=
  (t.find? place).bind fun number => (t.nodes.get? number).map (number, ·)

/-- The directory that holds the last segment of a place: its number, its inode and its entries. -/
def parent? (t : Tree) (place : Segments) : Option (Nat × Inode × OrderedMap String Nat) :=
  match t.lookup place.dropLast with
  | some (number, inode) =>
    match inode.body with
    | .directory children => some (number, inode, children)
    | .file _ => none
  | none => none

/-- Replace the entries of a directory. -/
def putChildren (t : Tree) (number : Nat) (children : OrderedMap String Nat) : Tree :=
  match t.nodes.get? number with
  | some i => t.put number { i with body := .directory children }
  | none => t

/-- The numbers of a node and all nodes below it, through at most `fuel` levels. -/
def below (t : Tree) : (fuel number : Nat) → List Nat
  | 0, _ => []
  | fuel + 1, number =>
    number ::
      match t.nodes.get? number with
      | some i => i.children.values.flatMap fun n => t.below fuel n
      | none => []

/-- Take out a node and all nodes below it. -/
def release (t : Tree) (number : Nat) : Tree :=
  { t with nodes := (t.below t.nodes.size number).foldl OrderedMap.erase t.nodes }

/-- What is told about a node that is at a place. -/
def describe (place : Segments) (i : Inode) : Except PathError Stat :=
  match i.size with
  | .ok size => .ok ⟨Path.nameOf place, i.isDirectory, size, i.attributes⟩
  | .error e => .error (.content e)

/-- What is told about the node at a place, which has to be there. -/
def node (t : Tree) (place : Segments) : Except PathError Stat :=
  match t.lookup place with
  | some (_, i) => describe place i
  | none => .error (.notFound (Path.format place))

/-- What is told about the node at a path. -/
def stat (t : Tree) (path cwd : String) : Except PathError Stat :=
  match t.lookup (Path.resolve path cwd) with
  | some (_, i) => describe (Path.resolve path cwd) i
  | none => .error (.notFound path)

/-- Whether there is something at a path. -/
def contains (t : Tree) (path cwd : String) : Bool := (t.lookup (Path.resolve path cwd)).isSome

/-- Whether there is a directory at a path. -/
def isDirectory (t : Tree) (path cwd : String) : Bool :=
  match t.lookup (Path.resolve path cwd) with
  | some (_, i) => i.isDirectory
  | none => false

/-- Whether there is a file at a path. -/
def isFile (t : Tree) (path cwd : String) : Bool :=
  match t.lookup (Path.resolve path cwd) with
  | some (_, i) => !i.isDirectory
  | none => false

/-- What the file at a path holds. -/
def content (t : Tree) (path cwd : String) : Except PathError Content :=
  match t.lookup (Path.resolve path cwd) with
  | none => .error (.notFound path)
  | some (_, i) =>
    match i.body with
    | .file content => .ok content
    | .directory _ => .error (.isDirectory path)

/-- The names of the entries of the directory at a path, in ascending order. -/
def childNames (t : Tree) (path cwd : String) : Except PathError (List String) :=
  match t.lookup (Path.resolve path cwd) with
  | none => .error (.notFound path)
  | some (_, i) =>
    match i.body with
    | .file _ => .error (.notDirectory path)
    | .directory children => .ok (Text.sorted children.keys)

/-- The node with a number as a value, with what is below it through at most `fuel` levels. -/
def nodeOf (t : Tree) : (fuel number : Nat) → Option Node
  | 0, _ => none
  | fuel + 1, number =>
    (t.nodes.get? number).map fun i =>
      match i.body with
      | .file content => .file i.attributes content
      | .directory children =>
        .directory i.attributes
          (children.entries.filterMap fun (name, n) => (t.nodeOf fuel n).map (name, ·))

/-- The tree as a value. -/
def toNode (t : Tree) : Node :=
  (t.nodeOf t.nodes.size t.root).getD (.directory default [])

/-- The tree in saved form. -/
def record (t : Tree) : Json := t.toNode.record "/"

mutual

/-- Put in a node with all that is below it; a node gets its number before those below it. -/
def plant (t : Tree) : Node → Tree × Nat
  | .file a content => t.alloc ⟨a, .file content⟩
  | .directory a entries =>
    let (t, number) := t.alloc ⟨a, .directory ∅⟩
    let (t, children) := plantAll t ∅ entries
    (t.put number ⟨a, .directory children⟩, number)

/-- Put in entries; of two with the same name the first stays. -/
def plantAll (t : Tree) (children : OrderedMap String Nat) :
    List (String × Node) → Tree × OrderedMap String Nat
  | [] => (t, children)
  | (name, node) :: rest =>
    if children.contains name then plantAll t children rest
    else
      let (t, number) := plant t node
      plantAll t (children.set name number) rest

end

/-- The tree of a node; the number zero stays unused. -/
def ofNode (node : Node) : Tree :=
  let (t, root) := plant { bare with next := 1 } node
  { t with root }

/-- The tree of a record. -/
def ofRecord (now : Int) (record : Json) : Except RecordError Tree :=
  (Node.ofRootRecord now record).map ofNode

/-- The paths of all nodes, with what each file holds; entries with a name that is not `keep` are
left out. -/
def listing (t : Tree) (keep : String → Bool) : List (String × Option Content) :=
  t.toNode.listing keep ""

end Tree

end TreeShell
