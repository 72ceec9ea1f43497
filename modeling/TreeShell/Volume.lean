import TreeShell.Journal
import TreeShell.Storage
import TreeShell.Tree.Edit

/-!
# Volumes

A tree with the store it is saved to. Every edit that changes the tree saves it whole, once; a save
that fails is noted in the journal and forgotten, and the tree stays as the edit left it.
-/

namespace TreeShell

/-- A tree, where it is saved, and what goes with that: the storage, the journal and the clock. -/
structure Volume where
  tree : Tree
  store : Option Store
  storage : Storage
  journal : Journal
  /-- The time of the next edits, in milliseconds. -/
  clock : Int
  deriving Inhabited

namespace Volume

/-- Note something in the journal. -/
def note (v : Volume) (level : Level) (source : Source) (message : String) : Volume :=
  { v with journal := v.journal.note v.clock level source message }

/-- Save the tree, if it has a store. -/
def save (v : Volume) : Volume :=
  match v.store with
  | none => v
  | some store =>
    match store.save v.tree.record v.storage with
    | (.ok _, storage) => { v with storage }
    | (.error e, storage) =>
      { v with storage }.note .warning .fs ("could not persist filesystem: " ++ e.message)

/-- Make an edit, and save the tree if that changed it. -/
def perform (v : Volume) (cwd : String) (e : Edit) : Except PathError Unit × Volume :=
  match e.perform v.clock cwd v.tree with
  | (.ok true, tree) => (.ok (), { v with tree }.save)
  | (.ok false, tree) => (.ok (), { v with tree })
  | (.error refusal, tree) => (.error refusal, { v with tree })

/-- Make edits one after another, with paths from the root, as far as the first that is refused. -/
def performAll (v : Volume) : List Edit → Except PathError Unit × Volume
  | [] => (.ok (), v)
  | e :: rest =>
    match v.perform "/" e with
    | (.ok _, v) => v.performAll rest
    | (.error refusal, v) => (.error refusal, v)

end Volume

end TreeShell
