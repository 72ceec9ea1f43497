import TreeShell.Proofs.Tree.Outcomes
import TreeShell.Proofs.Tree.Planting
import TreeShell.Proofs.Tree.Values
import TreeShell.Volume

/-!
# Requests to a volume

All that can be asked of a volume from outside: edits, saves, and questions about the tree, each at
a time and with a working directory. A volume starts with an empty tree or with the tree of a
record, and serves requests one after another, refused ones among them. Its tree stays one finite
tree.
-/

namespace TreeShell

/-- A question about a tree. -/
inductive Question where
  | node (place : Segments)
  | contains (path : String)
  | isDirectory (path : String)
  | isFile (path : String)
  | stat (path : String)
  | content (path : String)
  | childNames (path : String)
  | record
  deriving Inhabited

/-- What a request is answered with. -/
inductive Reply where
  | done
  | truth (b : Bool)
  | stat (stat : Stat)
  | content (content : Content)
  | names (names : List String)
  | record (record : Json)
  deriving Inhabited

/-- The answer to a question about a tree. -/
def Question.answer (cwd : String) (t : Tree) : Question → Except PathError Reply
  | .node place => (t.node place).map .stat
  | .contains path => .ok (.truth (t.contains path cwd))
  | .isDirectory path => .ok (.truth (t.isDirectory path cwd))
  | .isFile path => .ok (.truth (t.isFile path cwd))
  | .stat path => (t.stat path cwd).map .stat
  | .content path => (t.content path cwd).map .content
  | .childNames path => (t.childNames path cwd).map .names
  | .record => .ok (.record t.record)

/-- What a volume is asked to do. -/
inductive Operation where
  | edit (e : Edit)
  | save
  | ask (q : Question)
  deriving Inhabited

/-- What a volume is asked to do, when, and with which working directory. -/
structure Request where
  clock : Int
  cwd : String
  operation : Operation
  deriving Inhabited

namespace Volume

/-- The volume at a time. -/
def atClock (v : Volume) (clock : Int) : Volume := { v with clock }

/-- A volume with a tree that is saved nowhere. -/
def unsaved (tree : Tree) (clock : Int) : Volume := ⟨tree, none, ⟨default, []⟩, .usual, clock⟩

/-- Serve one request. -/
def request (v : Volume) (r : Request) : Except PathError Reply × Volume :=
  match r.operation with
  | .edit e =>
    (((v.atClock r.clock).perform r.cwd e).1.map fun _ => .done,
      ((v.atClock r.clock).perform r.cwd e).2)
  | .save => (.ok .done, (v.atClock r.clock).save)
  | .ask q => (q.answer r.cwd v.tree, v.atClock r.clock)

/-- Serve requests one after another, whether refused or not. -/
def serve (v : Volume) : List Request → List (Except PathError Reply) × Volume
  | [] => ([], v)
  | r :: rest => ((v.request r).1 :: ((v.request r).2.serve rest).1, ((v.request r).2.serve rest).2)

/-- A volume that nothing has been asked of: its tree is empty, or that of a record. -/
def Fresh (v : Volume) : Prop :=
  v.tree = Tree.empty v.clock ∨ ∃ record, Tree.ofRecord v.clock record = .ok v.tree

variable {v : Volume}

/-! ## What a request changes -/

@[simp] theorem tree_note (v : Volume) (level : Level) (source : Source) (message : String) :
    (v.note level source message).tree = v.tree :=
  rfl

/-- A save leaves the tree as it is, whether it succeeds or fails. -/
@[simp] theorem tree_save (v : Volume) : v.save.tree = v.tree := by
  unfold save
  split
  · rfl
  · split <;> rfl

/-- An edit of a volume is one of its tree. -/
theorem tree_perform (v : Volume) (cwd : String) (e : Edit) :
    (v.perform cwd e).2.tree = (e.perform v.clock cwd v.tree).2 := by
  unfold perform
  split
  · next h => rw [tree_save, h]
  · next h => rw [h]
  · next h => rw [h]

/-- An edit is answered as the tree answers it. -/
theorem reply_perform (v : Volume) (cwd : String) (e : Edit) :
    (v.perform cwd e).1 = (e.perform v.clock cwd v.tree).1.map fun _ => () := by
  unfold perform
  split
  · next h =>
    rw [h]
    rfl
  · next h =>
    rw [h]
    rfl
  · next h =>
    rw [h]
    rfl

/-- The tree after a request is the one that an edit leaves, or the one before. -/
theorem tree_request (v : Volume) (r : Request) :
    (v.request r).2.tree =
      match r.operation with
      | .edit e => (e.perform r.clock r.cwd v.tree).2
      | _ => v.tree := by
  unfold request
  cases r.operation with
  | edit e => exact tree_perform (v.atClock r.clock) r.cwd e
  | save => exact tree_save (v.atClock r.clock)
  | ask q => rfl

/-- What holds of a volume and is kept by each of some requests holds after all of them. -/
theorem serve_induction {P : Volume → Prop} (h : P v) (rs : List Request)
    (hstep : ∀ v, ∀ r ∈ rs, P v → P (v.request r).2) : P (v.serve rs).2 := by
  induction rs generalizing v with
  | nil => exact h
  | cons r rs ih =>
    have hfirst := hstep v r List.mem_cons_self h
    exact ih hfirst fun w r' hr => hstep w r' (List.mem_cons_of_mem r hr)

/-! ## One finite tree -/

/-- Trees that are empty or made from records are well-formed. -/
theorem Fresh.wellFormed (h : v.Fresh) : v.tree.WellFormed := by
  rcases h with h | ⟨record, h⟩
  · rw [h]
    exact Tree.wellFormed_empty v.clock
  · exact Tree.wellFormed_ofRecord h

/-- A request keeps a tree well-formed. -/
theorem wellFormed_request (h : v.tree.WellFormed) (r : Request) :
    (v.request r).2.tree.WellFormed := by
  rw [tree_request]
  cases r.operation with
  | edit e => exact Tree.wellFormed_perform r.clock r.cwd h e
  | save => exact h
  | ask q => exact h

/-- Requests one after another keep a tree well-formed. -/
theorem wellFormed_serve (h : v.Fresh) (rs : List Request) : (v.serve rs).2.tree.WellFormed :=
  serve_induction (P := fun v => v.tree.WellFormed) h.wellFormed rs
    fun _ r _ hv => wellFormed_request hv r

end Volume

/-! ## What cannot go wrong -/

namespace Tree

/-- A tree in which nothing can go wrong: no step of a look-up, of a release or of a saving comes to
a number without a node, no node is left over, and none is shared. -/
structure Intact (t : Tree) : Prop where
  /-- A number that is found is that of a node. -/
  known : ∀ p n, t.find? p = some n → n ∈ t.nodes.keys
  /-- No node is found at two places. -/
  unshared : ∀ p q n, t.find? p = some n → t.find? q = some n → p = q
  /-- No walk leads back to where it began. -/
  acyclic : ∀ n s, n ∈ t.nodes.keys → t.walk n s = some n → s = []
  /-- A file has no entries. -/
  leaf : ∀ n i name, t.nodes.get? n = some i → i.isDirectory = false → t.child? n name = none
  /-- The numbers that are released with a node are those of nodes, each of them once, and all that
  walks from it lead to. -/
  released : ∀ n ∈ t.nodes.keys, (t.below t.nodes.size n).Nodup ∧
    ∀ m, (m ∈ t.below t.nodes.size n → m ∈ t.nodes.keys) ∧
      (m ∈ t.below t.nodes.size n ↔ ∃ s, t.walk n s = some m)
  /-- The same numbers are released once the node is no entry any more. -/
  unlinked : ∀ d name c, t.child? d name = some c →
    (t.unlink d name).below (t.unlink d name).nodes.size c = t.below t.nodes.size c
  /-- The value that is saved has all nodes of the tree, and nothing else. -/
  shown : t.nodeOf t.nodes.size t.root = some t.toNode ∧ t.toNode.item? = t.item?
  /-- An edit is never refused for want of a node with a number. -/
  refusals : ∀ now cwd e r, (Edit.perform now cwd e t).1 = .error r → e.Refusal cwd t.item? r

variable {t : Tree}

/-- A walk does not leave the nodes. -/
theorem WellFormed.mem_of_walk (h : t.WellFormed) {n m : Nat} {s : Segments}
    (hn : n ∈ t.nodes.keys) (hw : t.walk n s = some m) : m ∈ t.nodes.keys := by
  obtain ⟨p, hp⟩ := h.reached n hn
  have hm : t.find? (p ++ s) = some m := by rw [find?_append, hp, Option.bind_some, hw]
  exact h.mem_of_find? hm

/-- A well-formed tree is intact as a graph of nodes. -/
theorem WellFormed.intact (h : t.WellFormed) : t.Intact where
  known _ _ hp := h.mem_of_find? hp
  unshared _ _ _ hp hq := h.find?_injective hp hq
  acyclic _ _ hn hw := h.walk_acyclic hn hw
  leaf n i name hi hd := by
    rw [child?_of_get? hi, Inode.children_of_file hd]
    rfl
  released n hn := by
    refine ⟨h.nodup_below _ hn, fun m => ⟨fun hm => ?_, h.mem_below_iff hn⟩⟩
    obtain ⟨s, hs⟩ := (h.mem_below_iff hn).mp hm
    exact h.mem_of_walk hn hs
  unlinked d name c hc := by
    obtain ⟨p, hp⟩ := h.reached d (mem_of_child? hc)
    exact below_unlink h ⟨hp, isDirectory_of_child? hc⟩ hc
  shown := h.toNode_spec
  refusals now cwd e r hr := by
    have ho := outcome_perform now cwd h e
    generalize Edit.perform now cwd e t = change at ho hr
    cases ho with
    | refused hp href =>
      cases hr
      exact href
    | unchanged hp hi => cases hr
    | changed hp hi hw hm => cases hr

end Tree

namespace Volume

/-- Whatever is asked of a volume, its inodes stay one finite tree in which nothing goes wrong. -/
theorem serve_one_tree {v : Volume} (h : v.Fresh) (rs : List Request) :
    (v.serve rs).2.tree.WellFormed ∧ (v.serve rs).2.tree.Intact :=
  ⟨wellFormed_serve h rs, (wellFormed_serve h rs).intact⟩

theorem serve_one_tree_from_empty :
    let requests : List Request :=
      [⟨1, "/", .edit (.makeDirectories "a/b")⟩, ⟨2, "/a", .edit (.write "b/c" (.string "x") false)⟩,
        ⟨3, "/a", .edit (.move "b" "/d")⟩, ⟨4, "/", .edit (.delete "d" true)⟩]
    ((unsaved (Tree.empty 0) 0).serve requests).2.tree.WellFormed ∧
      ((unsaved (Tree.empty 0) 0).serve requests).2.tree.Intact :=
  serve_one_tree (Or.inl rfl) _

end Volume

end TreeShell
