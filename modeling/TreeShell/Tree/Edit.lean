import TreeShell.Tree.Arena

/-!
# Edits

The six ways to change a tree. An edit leaves a tree and tells either why it was refused or whether
there is anything new to save: making directories that are all there, and moving a node to where it
is, change nothing. Times are those of the edit; a moved node keeps its own.
-/

namespace TreeShell

namespace Tree

/-- What an edit comes to: a refusal, or whether there is anything new to save, and the tree. -/
abbrev Change := Except PathError Bool × Tree

/-- Give a directory an entry. -/
def link (t : Tree) (directory : Nat) (name : String) (number : Nat) : Tree :=
  match t.nodes.get? directory with
  | some i => t.putChildren directory (i.children.set name number)
  | none => t

/-- Take an entry out of a directory. -/
def unlink (t : Tree) (directory : Nat) (name : String) : Tree :=
  match t.nodes.get? directory with
  | some i => t.putChildren directory (i.children.erase name)
  | none => t

/-- Put in an inode and make it an entry of a directory. -/
def add (t : Tree) (directory : Nat) (name : String) (i : Inode) : Tree × Nat :=
  let (t, number) := t.alloc i
  (t.link directory name number, number)

/-- Put a content into a file, in place of what it holds or behind it; a missing file is made. -/
def write (t : Tree) (now : Int) (cwd path : String) (content : Content) (append : Bool) : Change :=
  let place := Path.resolve path cwd
  match place.getLast? with
  | none => (.error (.isDirectory path), t)
  | some name =>
    match t.parent? place with
    | none => (.error (.parentMissing path), t)
    | some (directory, _, children) =>
      match children.get? name with
      | none => (.ok true, (t.add directory name ⟨.ofFile now, .file content⟩).1)
      | some number =>
        match t.nodes.get? number with
        | none => (.error (.notFound path), t)
        | some i =>
          match i.body with
          | .directory _ => (.error (.isDirectory path), t)
          | .file old =>
            match if append then old.join content else .ok content with
            | .error e => (.error (.content e), t)
            | .ok content => (.ok true, t.put number { i.modified now with body := .file content })

/-- Make an empty directory in a directory that is there. -/
def createDirectory (t : Tree) (now : Int) (cwd path : String) : Change :=
  let place := Path.resolve path cwd
  if (t.lookup place).isSome then (.error (.taken path), t)
  else
    match t.parent? place, place.getLast? with
    | some (directory, _, _), some name =>
      (.ok true, (t.add directory name ⟨.ofDirectory now, .directory ∅⟩).1)
    | _, _ => (.error (.parentMissing path), t)

/-- Make the missing ones of the directories that some segments lead through; `made` tells whether
one has been made already. -/
def makeDirectoriesFrom (now : Int) (path : String) : (t : Tree) → (made : Bool) →
    (directory : Nat) → Segments → Change
  | t, made, _, [] => (.ok made, t)
  | t, made, directory, name :: rest =>
    match t.child? directory name with
    | none =>
      let (t, number) := t.add directory name ⟨.ofDirectory now, .directory ∅⟩
      makeDirectoriesFrom now path t true number rest
    | some number =>
      match t.nodes.get? number with
      | none => (.error (.notFound path), t)
      | some i =>
        if i.isDirectory then makeDirectoriesFrom now path t made number rest
        else (.error (.notDirectory path), t)

/-- Make a directory and all that are missing on the way to it. -/
def makeDirectories (t : Tree) (now : Int) (cwd path : String) : Change :=
  makeDirectoriesFrom now path t false t.root (Path.resolve path cwd)

/-- Make an empty file, or note the time on what is there. -/
def touch (t : Tree) (now : Int) (cwd path : String) : Change :=
  match t.lookup (Path.resolve path cwd) with
  | none => t.write now cwd path (.string "") false
  | some (number, i) => (.ok true, t.put number (i.modified now))

/-- Take out a file or a directory; one with entries only if `recursive`. -/
def delete (t : Tree) (cwd path : String) (recursive : Bool) : Change :=
  let place := Path.resolve path cwd
  match place.getLast? with
  | none => (.error .removeRoot, t)
  | some name =>
    match t.lookup place with
    | none => (.error (.notFound path), t)
    | some (number, i) =>
      if !i.children.isEmpty && !recursive then (.error (.notEmpty path), t)
      else
        match t.parent? place with
        | none => (.error (.parentMissing path), t)
        | some (directory, _, _) => (.ok true, (t.unlink directory name).release number)

/-- Where a node named `name` goes that is moved to a place: into the directory that is there, or to
the place itself. -/
def landing (t : Tree) (place : Segments) (name : String) : Segments :=
  match t.lookup place with
  | some (_, i) => if i.isDirectory then place ++ [name] else place
  | none => place

/-- Move a node with a number from one place to another; a file that is there gives way. -/
def relink (t : Tree) (number : Nat) (source destination : Segments)
    (oldDirectory newDirectory : Nat) : Tree :=
  let t :=
    match t.find? destination with
    | some replaced => t.release replaced
    | none => t
  (t.unlink oldDirectory (Path.nameOf source)).link newDirectory (Path.nameOf destination) number

/-- Move the node with a number between the directories of two places, which have to be there. -/
def moveBetween (t : Tree) (number : Nat) (src dst : Segments) (source destination : String) :
    Change :=
  match t.parent? dst with
  | none => (.error (.parentMissing destination), t)
  | some (newDirectory, _, _) =>
    match t.parent? src with
    | none => (.error (.parentMissing source), t)
    | some (oldDirectory, _, _) => (.ok true, t.relink number src dst oldDirectory newDirectory)

/-- Move a file or a directory to a path, or into the directory that is there; a file there gives
way to a file. -/
def move (t : Tree) (cwd source destination : String) : Change :=
  let src := Path.resolve source cwd
  match src.getLast? with
  | none => (.error .moveRoot, t)
  | some name =>
    match t.lookup src with
    | none => (.error (.notFound source), t)
    | some (number, node) =>
      let dst := t.landing (Path.resolve destination cwd) name
      if dst = src then (.ok false, t)
      else if src <+: dst then (.error (.intoItself source), t)
      else
        match t.lookup dst with
        | none => t.moveBetween number src dst source destination
        | some (_, i) =>
          if i.isDirectory then (.error (.isDirectory (Path.format dst)), t)
          else if node.isDirectory then (.error (.overFile (Path.format dst) source), t)
          else t.moveBetween number src dst source destination

end Tree

/-- A change of a tree, as it is asked for. -/
inductive Edit where
  /-- Put a content into a file, in place of what it holds or behind it. -/
  | write (path : String) (content : Content) (append : Bool)
  /-- Make one directory. -/
  | createDirectory (path : String)
  /-- Make a directory and those on the way to it. -/
  | makeDirectories (path : String)
  /-- Make an empty file, or note the time. -/
  | touch (path : String)
  /-- Take out a node. -/
  | delete (path : String) (recursive : Bool)
  /-- Move a node. -/
  | move (source destination : String)
  deriving Inhabited

/-- Make a change at a time, with paths read against a working directory. -/
def Edit.perform (now : Int) (cwd : String) : Edit → Tree → Tree.Change
  | .write path content append, t => t.write now cwd path content append
  | .createDirectory path, t => t.createDirectory now cwd path
  | .makeDirectories path, t => t.makeDirectories now cwd path
  | .touch path, t => t.touch now cwd path
  | .delete path recursive, t => t.delete cwd path recursive
  | .move source destination, t => t.move cwd source destination

end TreeShell
