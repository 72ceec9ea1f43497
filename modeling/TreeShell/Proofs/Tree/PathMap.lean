import Mathlib.Data.List.Infix
import TreeShell.Tree.Edit

/-!
# Trees as plain maps

A tree can be told as a map from places to nodes, without numbers and without the order of entries.
An edit is told by the map alone: whether it can be made, how it is refused, whether it has anything
to do, and which map it leaves.
-/

namespace TreeShell

/-- A node without what is below it. -/
structure Item where
  attributes : Attributes
  /-- What a file holds; a directory holds nothing. -/
  content : Option Content

namespace Item

/-- Whether a node is a directory. -/
def isDirectory (item : Item) : Bool := item.content.isNone

/-- A node changed at a time. -/
def modified (item : Item) (now : Int) : Item :=
  { item with attributes := { item.attributes with modifiedAt := now } }

end Item

/-- A tree as a plain map from places to nodes. -/
abbrev PathMap := Segments → Option Item

namespace PathMap

variable {m : PathMap} {p : Segments}

/-- There is a directory at a place. -/
def HasDirectory (m : PathMap) (p : Segments) : Prop :=
  ∃ item, m p = some item ∧ item.isDirectory = true

/-- There is a file at a place. -/
def HasFile (m : PathMap) (p : Segments) : Prop :=
  ∃ item, m p = some item ∧ item.isDirectory = false

theorem hasDirectory_iff_of_eq {item : Item} (hi : m p = some item) :
    m.HasDirectory p ↔ item.isDirectory = true := by
  rw [HasDirectory, hi]
  constructor
  · rintro ⟨item', he, hd⟩
    rw [Option.some.inj he, hd]
  · exact fun hd => ⟨item, rfl, hd⟩

theorem not_hasDirectory_of_none (hi : m p = none) : ¬ m.HasDirectory p := by
  rintro ⟨item, he, -⟩
  rw [hi] at he
  cases he

/-- No place has both a directory and a file. -/
theorem HasDirectory.not_hasFile (h : m.HasDirectory p) : ¬ m.HasFile p := by
  rintro ⟨item, hi, hf⟩
  rw [hasDirectory_iff_of_eq hi, hf] at h
  cases h

/-- Something can be made at a place: the place is not the root, and there is a directory above
it. -/
def HasParent (m : PathMap) (p : Segments) : Prop := p ≠ [] ∧ m.HasDirectory p.dropLast

theorem not_hasParent_nil : ¬ m.HasParent [] := fun h => h.1 rfl

/-- The parent of a place is the directory that its last name is looked up in. -/
theorem hasParent_concat_iff {name : String} : m.HasParent (p ++ [name]) ↔ m.HasDirectory p := by
  rw [HasParent, List.dropLast_concat]
  exact and_iff_right (by simp)

/-! ## Changes of the map -/

/-- Put a node at a place, whatever is there. -/
def put (m : PathMap) (p : Segments) (item : Item) : PathMap := fun q =>
  if q = p then some item else m q

/-- Put a node at a place and at all places on the way to it, where these are free. -/
def fill (m : PathMap) (p : Segments) (item : Item) : PathMap := fun q =>
  if q <+: p ∧ m q = none then some item else m q

/-- Take out a place and all places below it. -/
def prune (m : PathMap) (p : Segments) : PathMap := fun q => if p <+: q then none else m q

/-- Take what is at and below one place to another place, in place of all that was there. -/
def relocate (m : PathMap) (p p' : Segments) : PathMap := fun q =>
  if p' <+: q then m (p ++ q.drop p'.length) else if p <+: q then none else m q

/-- Where a node named `name` goes that is moved to a place: into the directory that is there, or to
the place itself. -/
def landing (m : PathMap) (p : Segments) (name : String) : Segments :=
  match m p with
  | some item => if item.isDirectory then p ++ [name] else p
  | none => p

/-- What a file holds after a write, given what was at its place: the new content, or the old one
with the new one behind it. -/
def written (content : Content) (append : Bool) : Option Item → Except ContentError Content
  | some ⟨_, some old⟩ => if append then old.join content else .ok content
  | _ => .ok content

/-- Where nothing is, to write and to put behind come to the same. -/
theorem written_none (content : Content) (append : Bool) :
    written content append none = .ok content :=
  rfl

/-- What is put in place of all that was there is there then. -/
theorem written_over (content : Content) (o : Option Item) :
    written content false o = .ok content := by
  cases o with
  | none => rfl
  | some item =>
    obtain ⟨a, old⟩ := item
    cases old with
    | none => rfl
    | some old => rfl

/-- A text that goes behind a text makes one text of the two. -/
theorem written_text (a : Attributes) (old new : String) :
    written (.string new) true (some ⟨a, some (.string old)⟩) = .ok (.string (old ++ new)) :=
  rfl

/-- What is known about a file after a write: all but the time of the change stays. -/
def writtenAttributes (now : Int) : Option Item → Attributes
  | some item => (item.modified now).attributes
  | none => .ofFile now

/-- Write to the file at a place, or make one. -/
def write (m : PathMap) (now : Int) (p : Segments) (content : Content) (append : Bool) : PathMap :=
  match written content append (m p) with
  | .ok new => m.put p ⟨writtenAttributes now (m p), some new⟩
  | .error _ => m

/-- Note the time on the node at a place, or make an empty file. -/
def touch (m : PathMap) (now : Int) (p : Segments) : PathMap :=
  match m p with
  | some item => m.put p (item.modified now)
  | none => m.put p ⟨.ofFile now, some (.string "")⟩

end PathMap

namespace Edit

/-- The place that a moved node goes to. -/
def target (cwd source destination : String) (m : PathMap) : Segments :=
  m.landing (Path.resolve destination cwd) (Path.nameOf (Path.resolve source cwd))

/-- Whether an edit can be made. -/
def Permitted (cwd : String) (m : PathMap) : Edit → Prop
  | .write path content append =>
    m.HasParent (Path.resolve path cwd) ∧ ¬ m.HasDirectory (Path.resolve path cwd) ∧
      ∃ new, PathMap.written content append (m (Path.resolve path cwd)) = .ok new
  | .createDirectory path =>
    m (Path.resolve path cwd) = none ∧ m.HasParent (Path.resolve path cwd)
  | .makeDirectories path => ∀ q, q <+: Path.resolve path cwd → ¬ m.HasFile q
  | .touch path => m (Path.resolve path cwd) ≠ none ∨ m.HasParent (Path.resolve path cwd)
  | .delete path recursive =>
    Path.resolve path cwd ≠ [] ∧ m (Path.resolve path cwd) ≠ none ∧
      (recursive = true ∨ ∀ a, m (Path.resolve path cwd ++ [a]) = none)
  | .move source destination =>
    Path.resolve source cwd ≠ [] ∧ m (Path.resolve source cwd) ≠ none ∧
      (target cwd source destination m = Path.resolve source cwd ∨
        ¬ Path.resolve source cwd <+: target cwd source destination m ∧
          m.HasParent (target cwd source destination m) ∧
          ¬ m.HasDirectory (target cwd source destination m) ∧
          (m.HasDirectory (Path.resolve source cwd) →
            m (target cwd source destination m) = none))

/-- Whether an edit that can be made has nothing to do: the directories are all there, or the node
is where it should go. -/
def Idle (cwd : String) (m : PathMap) : Edit → Prop
  | .makeDirectories path => ∀ q, q <+: Path.resolve path cwd → m q ≠ none
  | .move source destination => target cwd source destination m = Path.resolve source cwd
  | _ => False

/-- The refusals that an edit can meet with. -/
def Refusal (cwd : String) (m : PathMap) : Edit → PathError → Prop
  | .write path _ _, e => e = .isDirectory path ∨ e = .parentMissing path ∨ ∃ r, e = .content r
  | .createDirectory path, e => e = .taken path ∨ e = .parentMissing path
  | .makeDirectories path, e => e = .notDirectory path
  | .touch path, e => e = .parentMissing path
  | .delete path _, e => e = .removeRoot ∨ e = .notFound path ∨ e = .notEmpty path
  | .move source destination, e =>
    e = .moveRoot ∨ e = .notFound source ∨ e = .intoItself source ∨
      e = .isDirectory (Path.format (target cwd source destination m)) ∨
      e = .overFile (Path.format (target cwd source destination m)) source ∨
      e = .parentMissing destination

/-- The map that is left by an edit that can be made. -/
def effect (now : Int) (cwd : String) (m : PathMap) : Edit → PathMap
  | .write path content append => m.write now (Path.resolve path cwd) content append
  | .createDirectory path => m.put (Path.resolve path cwd) ⟨.ofDirectory now, none⟩
  | .makeDirectories path => m.fill (Path.resolve path cwd) ⟨.ofDirectory now, none⟩
  | .touch path => m.touch now (Path.resolve path cwd)
  | .delete path _ => m.prune (Path.resolve path cwd)
  | .move source destination =>
    if target cwd source destination m = Path.resolve source cwd then m
    else m.relocate (Path.resolve source cwd) (target cwd source destination m)

/-- An edit with nothing to do leaves the map as it was. -/
theorem effect_of_idle {now : Int} {cwd : String} {m : PathMap} {e : Edit} (h : e.Idle cwd m) :
    e.effect now cwd m = m := by
  cases e with
  | makeDirectories path =>
    funext q
    exact if_neg fun hq => h q hq.1 hq.2
  | move source destination => exact if_pos h
  | write path content append => cases h
  | createDirectory path => cases h
  | touch path => cases h
  | delete path recursive => cases h

end Edit

end TreeShell
