import TreeShell.Proofs.Tree.WellFormed

/-!
# Trees as values

The value of a well-formed tree shows all of it: a path leads to the same node in the value as in
the tree. In particular no entry is left out for want of a node or for want of levels.
-/

namespace TreeShell

namespace Node

/-- The entry of a node with a name. -/
def child? (node : Node) (name : String) : Option Node :=
  match node with
  | .file .. => none
  | .directory _ entries => OrderedMap.find? name entries

/-- The node that some segments lead to. -/
def follow (node : Node) : Segments → Option Node
  | [] => some node
  | name :: rest => (node.child? name).bind fun n => n.follow rest

/-- A node without what is below it. -/
def item : Node → Item
  | .file a content => ⟨a, some content⟩
  | .directory a _ => ⟨a, none⟩

/-- A node as a plain map from places to nodes. -/
def item? (node : Node) : PathMap := fun place => (node.follow place).map item

theorem item?_nil (node : Node) : node.item? [] = some node.item := rfl

/-- A path leads through the child of its first name. -/
theorem item?_cons (node : Node) (name : String) (rest : Segments) :
    node.item? (name :: rest) = (node.child? name).bind fun n => n.item? rest := by
  rw [item?, follow]
  cases node.child? name with
  | none => rfl
  | some n => rfl

end Node

namespace Tree

variable {t : Tree}

/-- Enough levels for all walks from a node give the whole of it. -/
theorem nodeOf_spec (hknown : ∀ n name m, t.child? n name = some m → m ∈ t.nodes.keys)
    {fuel n : Nat} (hn : n ∈ t.nodes.keys) (hf : ∀ s m, t.walk n s = some m → s.length < fuel) :
    ∃ node, t.nodeOf fuel n = some node ∧
      ∀ p, node.item? p = (t.walk n p).bind t.itemOf := by
  induction fuel generalizing n with
  | zero => exact absurd (hf [] n rfl) (Nat.not_lt_zero _)
  | succ fuel ih =>
    obtain ⟨i, hi⟩ := exists_inode_of_mem hn
    have hentry : ∀ name m, i.children.get? name = some m → ∃ node, t.nodeOf fuel m = some node ∧
        ∀ p, node.item? p = (t.walk m p).bind t.itemOf := by
      intro name m hm
      rw [← child?_of_get? hi] at hm
      refine ih (hknown n name m hm) fun s k hs => ?_
      have hl := hf (name :: s) k (by rw [walk, hm, Option.bind_some, hs])
      rw [List.length_cons] at hl
      omega
    rw [nodeOf, hi, Option.map_some]
    obtain ⟨attributes, body⟩ := i
    cases body with
    | file content =>
      refine ⟨_, rfl, fun p => ?_⟩
      cases p with
      | nil =>
        rw [Node.item?_nil, walk, Option.bind_some, itemOf_of_get? hi]
        rfl
      | cons name rest =>
        rw [Node.item?_cons, walk, child?_of_get? hi]
        rfl
    | directory children =>
      refine ⟨_, rfl, fun p => ?_⟩
      cases p with
      | nil =>
        rw [Node.item?_nil, walk, Option.bind_some, itemOf_of_get? hi]
        rfl
      | cons name rest =>
        have hfind := OrderedMap.find?_filterMap (fun e => t.nodeOf fuel e.2) children.nodup name
        rw [Node.item?_cons, walk, child?_of_get? hi]
        change ((OrderedMap.find? name (children.entries.filterMap fun e =>
          (t.nodeOf fuel e.2).map (e.1, ·))).bind _) = ((children.get? name).bind _).bind _
        rw [hfind]
        change ((children.get? name).bind _).bind _ = _
        cases hm : children.get? name with
        | none => rfl
        | some m =>
          obtain ⟨node, hnode, hitem⟩ := hentry name m hm
          rw [Option.bind_some, Option.bind_some, hnode, Option.bind_some, hitem]

/-- The value of a well-formed tree has all of its nodes, at their places. -/
theorem WellFormed.toNode_spec (h : t.WellFormed) :
    t.nodeOf t.nodes.size t.root = some t.toNode ∧ t.toNode.item? = t.item? := by
  obtain ⟨node, hnode, hitem⟩ :=
    nodeOf_spec h.child_known h.root_mem fun s m hs => h.walk_length_lt h.root_mem hs
  have hto : t.toNode = node := by rw [toNode, hnode, Option.getD_some]
  rw [hto]
  exact ⟨hnode, funext hitem⟩

end Tree

end TreeShell
