import TreeShell.Proofs.Tree.Records

/-!
# Trees that are planted again

The value of a tree has every name of a directory once, so that nothing of it is lost when it is
planted again: the numbers may be others, but the new tree has the same value, down to the order of
the entries, and so the same record. The time of reading does not show, for the record of a tree
leaves nothing out.
-/

namespace TreeShell

namespace Node

mutual

/-- No directory in a node has a name twice. -/
def Distinct : Node → Prop
  | .file _ _ => True
  | .directory _ entries => (entries.map Prod.fst).Nodup ∧ DistinctAll entries

/-- No directory in some entries has a name twice. -/
def DistinctAll : List (String × Node) → Prop
  | [] => True
  | (_, node) :: rest => Distinct node ∧ DistinctAll rest

end

theorem distinctAll_iff {entries : List (String × Node)} :
    DistinctAll entries ↔ ∀ e ∈ entries, e.2.Distinct := by
  induction entries with
  | nil => simp [DistinctAll]
  | cons e rest ih => simp [DistinctAll, ih]

end Node

namespace Tree

variable {t t' : Tree}

/-! ## What inodes spell -/

mutual

/-- The inodes from a number on downwards are those of a node, entry for entry. -/
def Spells (t : Tree) (n : Nat) : Node → Prop
  | .file a content => t.nodes.get? n = some ⟨a, .file content⟩
  | .directory a entries =>
    ∃ children, t.nodes.get? n = some ⟨a, .directory children⟩ ∧
      SpellsAll t children.entries entries

/-- The inodes under numbered names are those of some entries, in the same order. -/
def SpellsAll (t : Tree) (numbers : List (String × Nat)) : List (String × Node) → Prop
  | [] => numbers = []
  | (name, node) :: rest =>
    ∃ n others, numbers = (name, n) :: others ∧ Spells t n node ∧ SpellsAll t others rest

end

mutual

/-- Through enough levels, a node is told from what the inodes spell. -/
theorem nodeOf_of_spells (node : Node) {fuel n : Nat} (h : t.Spells n node)
    (hf : ∀ s m, t.walk n s = some m → s.length < fuel) : t.nodeOf fuel n = some node := by
  cases fuel with
  | zero => exact absurd (hf [] n rfl) (Nat.not_lt_zero _)
  | succ fuel =>
    rw [nodeOf]
    cases node with
    | file a content =>
      rw [Spells] at h
      rw [h]
      rfl
    | directory a entries =>
      rw [Spells] at h
      obtain ⟨children, hi, hall⟩ := h
      have hentries : (children.entries.filterMap fun (name, n) =>
          (t.nodeOf fuel n).map (name, ·)) = entries := by
        refine entriesOf_of_spellsAll entries hall fun e he s m hs => ?_
        have hchild : t.child? n e.1 = some e.2 := by
          rw [child?_of_get? hi]
          exact OrderedMap.mem_entries_iff.mp he
        have hlength := hf (e.1 :: s) m (by rw [walk, hchild, Option.bind_some, hs])
        rw [List.length_cons] at hlength
        omega
      rw [hi, Option.map_some]
      dsimp only
      rw [hentries]

/-- Through enough levels, entries are told from what the inodes spell. -/
theorem entriesOf_of_spellsAll (entries : List (String × Node)) {fuel : Nat}
    {numbers : List (String × Nat)} (h : t.SpellsAll numbers entries)
    (hf : ∀ e ∈ numbers, ∀ s m, t.walk e.2 s = some m → s.length < fuel) :
    (numbers.filterMap fun (name, n) => (t.nodeOf fuel n).map (name, ·)) = entries := by
  cases entries with
  | nil =>
    rw [SpellsAll] at h
    rw [h]
    rfl
  | cons entry rest =>
    obtain ⟨name, node⟩ := entry
    rw [SpellsAll] at h
    obtain ⟨n, others, rfl, hnode, hrest⟩ := h
    have hfirst := nodeOf_of_spells node hnode (hf _ List.mem_cons_self)
    have hothers := entriesOf_of_spellsAll rest hrest fun e he => hf e (List.mem_cons_of_mem _ he)
    rw [List.filterMap_cons]
    dsimp only
    rw [hfirst, hothers]
    rfl

end

/-! ## Planting -/

mutual

/-- What is planted spells the node that it was, whatever becomes of the rest of the tree. -/
theorem spells_plant (node : Node) (t t' : Tree) (hd : node.Distinct)
    (hu : ∀ k, t.next ≤ k → t.itemOf k = none)
    (h : (t.plant node).1.Agrees t' t.next (t.plant node).1.next) : t'.Spells t.next node := by
  have hlt := (plant_spec node t hu).2.1
  cases node with
  | file a content =>
    rw [Spells, h t.next (Nat.le_refl _) hlt, plant, alloc, OrderedMap.get?_set, if_pos rfl]
  | directory a entries =>
    rw [Node.Distinct] at hd
    have halloc := Grown.alloc hu ⟨a, .directory ∅⟩
    have hspells := spells_plantAll entries (t.alloc ⟨a, .directory ∅⟩).1 t' ∅ hd.1 hd.2
      (fun _ _ => List.not_mem_nil) halloc.unused
    obtain ⟨hagrees, hi⟩ := h.of_directory hlt
    obtain ⟨numbers, hnumbers, hall⟩ := hspells hagrees
    rw [Spells]
    exact ⟨_, hi, by rw [hnumbers]; exact hall⟩

/-- Entries with different names that are planted are put behind those that are there, and spell
what they were. -/
theorem spells_plantAll (entries : List (String × Node)) (t t' : Tree)
    (children : OrderedMap String Nat) (hn : (entries.map Prod.fst).Nodup)
    (hd : Node.DistinctAll entries) (hnew : ∀ e ∈ entries, e.1 ∉ children.keys)
    (hu : ∀ k, t.next ≤ k → t.itemOf k = none)
    (h : (t.plantAll children entries).1.Agrees t' t.next (t.plantAll children entries).1.next) :
    ∃ numbers, (t.plantAll children entries).2.entries = children.entries ++ numbers ∧
      t'.SpellsAll numbers entries := by
  cases entries with
  | nil =>
    rw [plantAll]
    exact ⟨[], (List.append_nil _).symm, by rw [SpellsAll]⟩
  | cons entry rest =>
    obtain ⟨name, node⟩ := entry
    rw [Node.DistinctAll] at hd
    rw [List.map_cons, List.nodup_cons] at hn
    have hname : name ∉ children.keys := hnew _ List.mem_cons_self
    have hknown : ¬ children.contains name = true := by
      rw [OrderedMap.contains, decide_eq_true_iff]
      exact hname
    rw [plantAll, if_neg hknown] at h ⊢
    obtain ⟨hnumber, hlt, hgrown, -⟩ := plant_spec node t hu
    have hnode := spells_plant node t t' hd.1 hu
    dsimp only at h ⊢
    generalize t.plant node = planted at *
    have hfree : ∀ e ∈ rest, e.1 ∉ (children.set name planted.2).keys := by
      intro e he hmem
      rw [OrderedMap.keys_set, if_neg hname, List.mem_append, List.mem_singleton] at hmem
      rcases hmem with hmem | hmem
      · exact hnew e (List.mem_cons_of_mem _ he) hmem
      · exact hn.1 (List.mem_map.mpr ⟨e, he, hmem⟩)
    obtain ⟨hgrown', -⟩ := plantAll_spec rest planted.1 (children.set name planted.2) hgrown.unused
    have hrest := spells_plantAll rest planted.1 t' (children.set name planted.2) hn.2 hd.2 hfree
      hgrown.unused
    generalize planted.1.plantAll (children.set name planted.2) rest = all at *
    obtain ⟨numbers, hnumbers, hall⟩ := hrest fun k hk hk' => h k (hgrown.next_le.trans hk) hk'
    refine ⟨(name, t.next) :: numbers, ?_, ?_⟩
    · rw [hnumbers, OrderedMap.set, dif_neg hname, hnumber, List.append_assoc,
        List.singleton_append]
    · rw [SpellsAll]
      refine ⟨t.next, numbers, rfl, hnode fun k hk hk' => ?_, hall⟩
      rw [h k hk (hk'.trans_le hgrown'.next_le), hgrown'.old k hk']

end

/-- The tree of a directory has that directory as its value, if no name is there twice. -/
theorem toNode_ofNode {node : Node} (hdir : node.isDirectory = true) (hd : node.Distinct) :
    (ofNode node).toNode = node := by
  have hwf := wellFormed_ofNode hdir
  have hu : ∀ k, ({ bare with next := 1 } : Tree).next ≤ k →
      ({ bare with next := 1 } : Tree).itemOf k = none := fun _ _ => rfl
  have hroot : (ofNode node).root = 1 := (plant_spec node { bare with next := 1 } hu).1
  have hspells : (ofNode node).Spells (ofNode node).root node := by
    rw [hroot]
    exact spells_plant node { bare with next := 1 } (ofNode node) hd hu fun k _ _ => rfl
  have hnode := nodeOf_of_spells node hspells fun s m hs => hwf.walk_length_lt hwf.root_mem hs
  rw [toNode, hnode, Option.getD_some]

/-! ## The value of a tree -/

/-- The value of a node of a tree has no name of a directory twice. -/
theorem distinct_nodeOf {fuel n : Nat} {node : Node} (h : t.nodeOf fuel n = some node) :
    node.Distinct := by
  induction fuel generalizing n node with
  | zero => cases h
  | succ fuel ih =>
    rw [nodeOf] at h
    obtain ⟨⟨a, body⟩, -, hnode⟩ := Option.map_eq_some_iff.mp h
    cases body with
    | file content =>
      cases hnode
      trivial
    | directory children =>
      cases hnode
      rw [Node.Distinct, Node.distinctAll_iff]
      constructor
      · exact children.nodup.sublist
          (OrderedMap.map_fst_filterMap_sublist (fun e => t.nodeOf fuel e.2) _)
      · intro e he
        obtain ⟨entry, -, hentry⟩ := List.mem_filterMap.mp he
        obtain ⟨child, hchild, rfl⟩ := Option.map_eq_some_iff.mp hentry
        exact ih hchild

/-- The record of a well-formed tree is read at any time, and the tree that it gives has the same
value, if what its files hold is read back as it is. -/
theorem WellFormed.toNode_ofRecord_record (h : t.WellFormed) (hl : t.item?.Holds Json.IsLasting)
    (now : Int) :
    ∃ t', Tree.ofRecord now t.record = .ok t' ∧ t'.WellFormed ∧ t'.toNode = t.toNode := by
  obtain ⟨hnode, -⟩ := h.toNode_spec
  have hlasting : t.toNode.Lasting :=
    lasting_nodeOf (fun n i content hi hbody => h.isLasting_body hl hi hbody) hnode
  have hread := Node.ofRootRecord_record now h.isDirectory_toNode hlasting
  refine ⟨ofNode t.toNode, ?_, wellFormed_ofNode h.isDirectory_toNode,
    toNode_ofNode h.isDirectory_toNode (distinct_nodeOf hnode)⟩
  rw [Tree.ofRecord, record, hread]
  rfl

end Tree

end TreeShell
