import TreeShell.Proofs.Tree.Texts

/-!
# Records and the trees they give

A tree is given back by its record: the tree that is read from the record has the same nodes at the
same places. Only what files hold could get lost on the way, for a record that holds nothing for a
file is read as one without text; but no tree that was read from a record holds such a thing.
-/

namespace TreeShell

/-- What a file holds is read back from a record as it is: if it counts as nothing, it is the empty
text. -/
def Json.IsLasting (content : Content) : Prop := content.isEmptyLike = true → content = .string ""

/-- A text lasts. -/
theorem Json.isLasting_string (text : String) : (Json.string text).IsLasting := by
  intro h
  unfold isEmptyLike at h
  split at h <;> simp_all

namespace Node

mutual

/-- All that the files of a node hold is read back from a record as it is. -/
def Lasting : Node → Prop
  | .file _ content => content.IsLasting
  | .directory _ entries => LastingAll entries

/-- All that the files of some entries hold is read back from a record as it is. -/
def LastingAll : List (String × Node) → Prop
  | [] => True
  | (_, node) :: rest => Lasting node ∧ LastingAll rest

end

/-- Entries last just if each of them does. -/
theorem lastingAll_iff {entries : List (String × Node)} :
    LastingAll entries ↔ ∀ e ∈ entries, e.2.Lasting := by
  induction entries with
  | nil => simp [LastingAll]
  | cons e rest ih => simp [LastingAll, ih]

/-! ## From a node to its record and back -/

/-- Attributes are read back from their record. -/
theorem readAttributes_record (usual a : Attributes) {fields : List (String × Json)}
    (h : Json.find? "metadata" fields = some a.record) : readAttributes usual fields = .ok a := by
  have hknown : optionalFields "metadata" fields = .ok [("createdAt", .int a.createdAt),
      ("modifiedAt", .int a.modifiedAt), ("permissions", a.permissions)] := by
    rw [optionalFields, h]
    rfl
  rw [readAttributes, hknown]
  rfl

/-- A content that lasts is read back from its record. -/
theorem readContent_of_lasting {content : Content} {fields : List (String × Json)}
    (hc : content.IsLasting) (h : Json.find? "content" fields = some content) :
    readContent fields = content := by
  rw [readContent, h]
  dsimp only
  split
  · next hempty => exact (hc hempty).symm
  · rfl

mutual

/-- A node is what its record is read as. -/
theorem ofRecord_record (now : Int) (name : String) (node : Node) (h : node.Lasting) :
    ofRecord now (record name node) = .ok node := by
  cases node with
  | file a content =>
    rw [Lasting] at h
    simp only [record, ofRecord]
    rw [readAttributes_record _ a rfl, readContent_of_lasting h rfl]
    rfl
  | directory a entries =>
    rw [Lasting] at h
    have hentries := ofEntries_entryRecords now entries h
    simp only [record, ofRecord, ofChildren]
    rw [readAttributes_record _ a rfl]
    simp [hentries]
    rfl

/-- Entries are what their records are read as. -/
theorem ofEntries_entryRecords (now : Int) (entries : List (String × Node))
    (h : LastingAll entries) : ofEntries now (entryRecords entries) = .ok entries := by
  cases entries with
  | nil => rfl
  | cons entry rest =>
    obtain ⟨name, node⟩ := entry
    rw [LastingAll] at h
    rw [entryRecords, ofEntries, ofRecord_record now name node h.1,
      ofEntries_entryRecords now rest h.2]
    rfl

end

/-- A directory that lasts is read back from its record. -/
theorem ofRootRecord_record (now : Int) {node : Node} (hdir : node.isDirectory = true)
    (h : node.Lasting) : ofRootRecord now (node.record "/") = .ok node := by
  have hread := ofRecord_record now "/" node h
  cases node with
  | file a content => cases hdir
  | directory a entries =>
    rw [record] at hread ⊢
    exact hread

/-! ## What is read from a record lasts -/

/-- A content that was read lasts. -/
theorem isLasting_readContent (fields : List (String × Json)) :
    Json.IsLasting (readContent fields) := by
  unfold readContent
  split
  · exact Json.isLasting_string ""
  · split
    · exact Json.isLasting_string ""
    · next hfull => exact fun hempty => absurd hempty hfull

mutual

/-- A node that was read from a record is read from its own record again. -/
theorem lasting_ofRecord {now : Int} (v : Json) {node : Node} (h : ofRecord now v = .ok node) :
    node.Lasting := by
  cases v with
  | object fields =>
    rw [ofRecord] at h
    split at h
    · cases ha : readAttributes (.ofFile now) fields with
      | error e =>
        rw [ha] at h
        cases h
      | ok a =>
        rw [ha] at h
        cases h
        exact isLasting_readContent fields
    · cases ha : readAttributes (.ofDirectory now) fields with
      | error e =>
        rw [ha] at h
        cases h
      | ok a =>
        cases he : ofChildren now fields with
        | error e =>
          rw [ha, he] at h
          cases h
        | ok entries =>
          rw [ha, he] at h
          cases h
          exact lasting_ofChildren fields he
    · cases h
  | _ => cases h

/-- The entries that a record has for a directory last. -/
theorem lasting_ofChildren {now : Int} (fields : List (String × Json))
    {entries : List (String × Node)} (h : ofChildren now fields = .ok entries) :
    LastingAll entries := by
  cases fields with
  | nil =>
    cases h
    trivial
  | cons field rest =>
    obtain ⟨name, v⟩ := field
    unfold ofChildren at h
    split at h
    · split at h
      · next children => exact lasting_ofEntries children h
      · split at h
        · cases h
          trivial
        · cases h
    · exact lasting_ofChildren rest h

/-- Entries that are read one by one last. -/
theorem lasting_ofEntries {now : Int} (fields : List (String × Json))
    {entries : List (String × Node)} (h : ofEntries now fields = .ok entries) :
    LastingAll entries := by
  cases fields with
  | nil =>
    cases h
    trivial
  | cons field rest =>
    obtain ⟨name, v⟩ := field
    rw [ofEntries] at h
    cases hv : ofRecord now v with
    | error e =>
      rw [hv] at h
      cases h
    | ok node =>
      cases hrest : ofEntries now rest with
      | error e =>
        rw [hv, hrest] at h
        cases h
      | ok nodes =>
        rw [hv, hrest] at h
        cases h
        exact ⟨lasting_ofRecord v hv, lasting_ofEntries rest hrest⟩

end

/-- Every node in one that lasts does so too. -/
theorem lasting_follow {node n : Node} (h : node.Lasting) {p : Segments}
    (hp : node.follow p = some n) : n.Lasting := by
  induction p generalizing node with
  | nil =>
    cases hp
    exact h
  | cons name rest ih =>
    obtain ⟨child, hchild, hrest⟩ := Option.bind_eq_some_iff.mp hp
    cases node with
    | file a content => cases hchild
    | directory a entries =>
      have hmem := OrderedMap.mem_of_find?_eq_some hchild
      exact ih (lastingAll_iff.mp h (name, child) hmem) hrest

/-- A node that lasts holds contents that last. -/
theorem Lasting.holds {node : Node} (h : node.Lasting) : node.item?.Holds Json.IsLasting := by
  intro p a content hp
  obtain ⟨n, hn, hitem⟩ := Option.map_eq_some_iff.mp hp
  have hlasting := lasting_follow h hn
  cases n with
  | file a' content' =>
    cases hitem
    exact hlasting
  | directory a' entries => cases hitem

end Node

/-! ## What is planted is what was there -/

namespace Tree

variable {t t' t'' : Tree}

/-- What is found at and below the node with a number is what a node has at its places. -/
def Shows (t : Tree) (n : Nat) (node : Node) : Prop :=
  ∀ p, (t.walk n p).bind t.itemOf = node.item? p

/-- A number of a file shows the file. -/
theorem shows_file {n : Nat} {a : Attributes} {content : Content}
    (hi : t.nodes.get? n = some ⟨a, .file content⟩) : t.Shows n (.file a content) := by
  intro p
  cases p with
  | nil =>
    rw [walk, Option.bind_some, itemOf_of_get? hi]
    rfl
  | cons name rest =>
    rw [Node.item?_cons, walk, child?_of_get? hi]
    rfl

/-- A number of a directory shows the entries that its children show. -/
theorem shows_directory {n : Nat} {a : Attributes} {children : OrderedMap String Nat}
    {entries : List (String × Node)} (hi : t.nodes.get? n = some ⟨a, .directory children⟩)
    (hnone : ∀ name, OrderedMap.find? name entries = none → children.get? name = none)
    (hsome : ∀ name node, OrderedMap.find? name entries = some node →
      ∃ m, children.get? name = some m ∧ t.Shows m node) :
    t.Shows n (.directory a entries) := by
  intro p
  cases p with
  | nil =>
    rw [walk, Option.bind_some, itemOf_of_get? hi]
    rfl
  | cons name rest =>
    rw [Node.item?_cons, walk, child?_of_get? hi, Node.child?]
    change ((children.get? name).bind _).bind _ = _
    cases hf : OrderedMap.find? name entries with
    | none =>
      rw [hnone name hf]
      rfl
    | some node =>
      obtain ⟨m, hm, hshows⟩ := hsome name node hf
      rw [hm]
      exact hshows rest

/-- An entry that is there stays, whatever is planted beside it. -/
theorem get?_plantAll_of_known (entries : List (String × Node)) (t : Tree)
    {children : OrderedMap String Nat} {name : String} {m : Nat}
    (h : children.get? name = some m) : (t.plantAll children entries).2.get? name = some m := by
  induction entries generalizing t children with
  | nil =>
    rw [plantAll]
    exact h
  | cons entry rest ih =>
    obtain ⟨other, node⟩ := entry
    rw [plantAll]
    split
    · exact ih t h
    · next hnew =>
      have hne : name ≠ other := by
        rintro rfl
        rw [OrderedMap.contains, decide_eq_true_iff] at hnew
        rw [OrderedMap.get?_eq_none_iff.mpr hnew] at h
        cases h
      refine ih _ ?_
      rw [OrderedMap.get?_set, if_neg hne, h]

/-- From some inodes on, none has changed up to some number. -/
def Agrees (t t' : Tree) (first last : Nat) : Prop :=
  ∀ k, first ≤ k → k < last → t'.nodes.get? k = t.nodes.get? k

/-- A tree that agrees with one in which a directory was planted agrees on its entries, and has the
directory. -/
theorem Agrees.of_directory {t t' : Tree} {a : Attributes} {entries : List (String × Node)}
    (h : (t.plant (.directory a entries)).1.Agrees t' t.next
      (t.plant (.directory a entries)).1.next)
    (hlt : t.next < (t.plant (.directory a entries)).1.next) :
    ((t.alloc ⟨a, .directory ∅⟩).1.plantAll ∅ entries).1.Agrees t' (t.next + 1)
        ((t.alloc ⟨a, .directory ∅⟩).1.plantAll ∅ entries).1.next ∧
      t'.nodes.get? t.next =
        some ⟨a, .directory ((t.alloc ⟨a, .directory ∅⟩).1.plantAll ∅ entries).2⟩ := by
  rw [plant_directory] at h hlt
  constructor
  · intro k hk hk'
    rw [h k (by omega) hk', put, OrderedMap.get?_set, if_neg (by omega)]
  · rw [h t.next (Nat.le_refl _) hlt, put, OrderedMap.get?_set, if_pos rfl]

mutual

/-- A planted node shows what it is, whatever becomes of the rest of the tree. -/
theorem shows_plant (node : Node) (t t' : Tree) (hu : ∀ k, t.next ≤ k → t.itemOf k = none)
    (h : (t.plant node).1.Agrees t' t.next (t.plant node).1.next) : t'.Shows t.next node := by
  have hlt := (plant_spec node t hu).2.1
  cases node with
  | file a content =>
    refine shows_file ?_
    rw [h t.next (Nat.le_refl _) hlt, plant, alloc, OrderedMap.get?_set, if_pos rfl]
  | directory a entries =>
    have halloc := Grown.alloc hu ⟨a, .directory ∅⟩
    have hshows := shows_plantAll entries (t.alloc ⟨a, .directory ∅⟩).1 t' ∅ halloc.unused
    obtain ⟨hagrees, hi⟩ := h.of_directory hlt
    refine shows_directory hi (fun name hf => ?_) fun name node hf => ?_
    · rw [(hshows hagrees name).1 hf]
      rfl
    · exact (hshows hagrees name).2 rfl node hf

/-- Planted entries show what they are; of two with the same name the first does. -/
theorem shows_plantAll (entries : List (String × Node)) (t t' : Tree)
    (children : OrderedMap String Nat) (hu : ∀ k, t.next ≤ k → t.itemOf k = none)
    (h : (t.plantAll children entries).1.Agrees t' t.next (t.plantAll children entries).1.next)
    (name : String) :
    (OrderedMap.find? name entries = none →
        (t.plantAll children entries).2.get? name = children.get? name) ∧
      (children.get? name = none → ∀ node, OrderedMap.find? name entries = some node →
        ∃ m, (t.plantAll children entries).2.get? name = some m ∧ t'.Shows m node) := by
  cases entries with
  | nil =>
    rw [plantAll]
    exact ⟨fun _ => rfl, fun _ node hf => by cases hf⟩
  | cons entry rest =>
    obtain ⟨first, node⟩ := entry
    rw [OrderedMap.find?]
    rw [plantAll] at h ⊢
    by_cases hknown : children.contains first = true
    · rw [if_pos hknown] at h ⊢
      obtain ⟨hnone, hsome⟩ := shows_plantAll rest t t' children hu h name
      refine ⟨fun hf => ?_, fun hfree node' hf => ?_⟩
      · split at hf
        · cases hf
        · exact hnone hf
      · rw [if_neg (fun he => ?_)] at hf
        · exact hsome hfree node' hf
        · rw [OrderedMap.contains, decide_eq_true_iff, he] at hknown
          exact OrderedMap.get?_eq_none_iff.mp hfree hknown
    · rw [if_neg hknown] at h ⊢
      obtain ⟨hn, hlt, hgrown, -⟩ := plant_spec node t hu
      have hshows := shows_plant node t t' hu
      dsimp only at h ⊢
      generalize t.plant node = planted at *
      obtain ⟨hgrown', -⟩ := plantAll_spec rest planted.1 (children.set first planted.2)
        hgrown.unused
      have hagrees : (planted.1.plantAll (children.set first planted.2) rest).1.Agrees t'
          planted.1.next (planted.1.plantAll (children.set first planted.2) rest).1.next :=
        fun k hk hk' => h k (hgrown.next_le.trans hk) hk'
      obtain ⟨hnone, hsome⟩ := shows_plantAll rest planted.1 t' (children.set first planted.2)
        hgrown.unused hagrees name
      have hkept := get?_plantAll_of_known rest planted.1
        (OrderedMap.get?_set_self children first planted.2)
      generalize planted.1.plantAll (children.set first planted.2) rest = all at *
      rw [OrderedMap.get?_set] at hnone hsome
      refine ⟨fun hf => ?_, fun hfree node' hf => ?_⟩
      · split at hf
        · cases hf
        · next hne =>
          rw [if_neg (Ne.symm hne)] at hnone
          exact hnone hf
      · split at hf
        · next he =>
          cases hf
          refine ⟨planted.2, he ▸ hkept, ?_⟩
          rw [hn]
          refine hshows fun k hk hk' => ?_
          rw [h k hk (hk'.trans_le hgrown'.next_le), hgrown'.old k hk']
        · next hne =>
          rw [if_neg (Ne.symm hne)] at hsome
          exact hsome hfree node' hf

end

/-- The tree of a node has the nodes that the node has, at the same places. -/
theorem item?_ofNode (node : Node) : (ofNode node).item? = node.item? := by
  have hu : ∀ k, ({ bare with next := 1 } : Tree).next ≤ k →
      ({ bare with next := 1 } : Tree).itemOf k = none := fun _ _ => rfl
  have hroot := (plant_spec node { bare with next := 1 } hu).1
  -- the root is no part of what the inodes show
  have hshows : (ofNode node).Shows 1 node :=
    shows_plant node { bare with next := 1 } (ofNode node) hu fun k _ _ => rfl
  funext p
  have hfind : (ofNode node).find? p = (ofNode node).walk 1 p :=
    congrArg (fun n => (ofNode node).walk n p) hroot
  rw [item?, hfind]
  exact hshows p

/-! ## A tree and the tree of its record -/

/-- What the files of a tree hold is what the files of its value hold. -/
theorem lasting_nodeOf (h : ∀ n i content, t.nodes.get? n = some i → i.body = .file content →
    content.IsLasting) {fuel n : Nat} {node : Node} (hn : t.nodeOf fuel n = some node) :
    node.Lasting := by
  induction fuel generalizing n node with
  | zero => cases hn
  | succ fuel ih =>
    rw [nodeOf] at hn
    cases hi : t.nodes.get? n with
    | none =>
      rw [hi] at hn
      cases hn
    | some i =>
      rw [hi] at hn
      obtain ⟨a, body⟩ := i
      cases body with
      | file content =>
        cases hn
        exact h n _ content hi rfl
      | directory children =>
        cases hn
        rw [Node.Lasting, Node.lastingAll_iff]
        intro e he
        obtain ⟨entry, -, hentry⟩ := List.mem_filterMap.mp he
        obtain ⟨child, hchild, rfl⟩ := Option.map_eq_some_iff.mp hentry
        exact ih hchild

/-- What the files of a well-formed tree hold is what is found at its places. -/
theorem WellFormed.isLasting_body (h : t.WellFormed) (hl : t.item?.Holds Json.IsLasting)
    {n : Nat} {i : Inode} {content : Content} (hi : t.nodes.get? n = some i)
    (hbody : i.body = .file content) : content.IsLasting := by
  have hmem : n ∈ t.nodes.keys := OrderedMap.mem_keys_iff.mpr ⟨i, hi⟩
  obtain ⟨p, hp⟩ := h.reached n hmem
  have hitem : t.item? p = some ⟨i.attributes, some content⟩ := by
    rw [item?_of_find? hp, itemOf_of_get? hi, Inode.item, hbody]
  exact hl p i.attributes content hitem

/-- The item of a node is a directory just if the node is. -/
theorem isDirectory_item_node (node : Node) : node.item.isDirectory = node.isDirectory := by
  cases node with
  | file a content => rfl
  | directory a entries => rfl

/-- The node of a tree is a directory. -/
theorem WellFormed.isDirectory_toNode (h : t.WellFormed) : t.toNode.isDirectory = true := by
  obtain ⟨-, hitem⟩ := h.toNode_spec
  obtain ⟨item, hi, hdir⟩ := hasDirectory_iff.mpr ⟨_, h.directoryAt_root⟩
  rw [← hitem, Node.item?_nil, Option.some.injEq] at hi
  rw [← isDirectory_item_node, hi, hdir]

/-- The record of a well-formed tree is read, and the tree that it gives has the same nodes at the
same places, if what its files hold is read back as it is. -/
theorem WellFormed.ofRecord_record (h : t.WellFormed) (hl : t.item?.Holds Json.IsLasting)
    (now : Int) :
    ∃ t', Tree.ofRecord now t.record = .ok t' ∧ t'.WellFormed ∧ t'.item? = t.item? := by
  obtain ⟨hnode, hitem⟩ := h.toNode_spec
  have hlasting : t.toNode.Lasting :=
    lasting_nodeOf (fun n i content hi hbody => h.isLasting_body hl hi hbody) hnode
  have hread := Node.ofRootRecord_record now h.isDirectory_toNode hlasting
  refine ⟨ofNode t.toNode, ?_, wellFormed_ofNode h.isDirectory_toNode, ?_⟩
  · rw [Tree.ofRecord, record, hread]
    rfl
  · rw [item?_ofNode, hitem]

/-- A tree that was read from a record has files that are read back as they are. -/
theorem holds_ofRecord {now : Int} {record : Json} (h : Tree.ofRecord now record = .ok t) :
    t.item?.Holds Json.IsLasting := by
  obtain ⟨node, hn, rfl⟩ := exists_node_of_ofRecord h
  have hread : Node.ofRecord now record = .ok node := by
    unfold Node.ofRootRecord at hn
    split at hn
    · split at hn
      · exact hn
      · cases hn
    · cases hn
  rw [item?_ofNode]
  exact (Node.lasting_ofRecord record hread).holds

end Tree

end TreeShell
