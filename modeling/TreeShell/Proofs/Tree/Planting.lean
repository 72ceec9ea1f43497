import TreeShell.Proofs.Tree.Links

/-!
# Trees of records

A node is planted by giving its parts the numbers that come next, each one before those below it. So
the numbers below a planted node are one unbroken range, each of them once, and a tree that is read
from a record is well-formed. The same holds of a tree that begins with an empty directory.
-/

namespace TreeShell.Tree

/-- A tree that has grown: it has nodes under all numbers handed out since, none above, and the old
ones as they were. -/
structure Grown (t t' : Tree) : Prop where
  next_le : t.next ≤ t'.next
  old : ∀ k < t.next, t'.nodes.get? k = t.nodes.get? k
  known : ∀ k, t.next ≤ k → k < t'.next → t'.itemOf k ≠ none
  unused : ∀ k, t'.next ≤ k → t'.itemOf k = none

variable {t t' t'' : Tree}

namespace Grown

/-- A tree has grown from itself if the numbers to come are free. -/
theorem refl (hu : ∀ k, t.next ≤ k → t.itemOf k = none) : t.Grown t :=
  ⟨Nat.le_refl _, fun _ _ => rfl, fun _ hk hlt => absurd hlt (by omega), hu⟩

/-- What has grown from a grown tree has grown from the first. -/
theorem trans (h : t.Grown t') (h' : t'.Grown t'') : t.Grown t'' where
  next_le := h.next_le.trans h'.next_le
  old k hk := by
    have hk' : k < t'.next := hk.trans_le h.next_le
    rw [h'.old k hk', h.old k hk]
  known k hk hlt := by
    by_cases hk' : k < t'.next
    · rw [itemOf, h'.old k hk']
      exact h.known k hk hk'
    · exact h'.known k (by omega) hlt
  unused := h'.unused

/-- A tree grows by one new inode. -/
theorem alloc (hu : ∀ k, t.next ≤ k → t.itemOf k = none) (i : Inode) : t.Grown (t.alloc i).1 where
  next_le := Nat.le_succ _
  old k hk := by
    rw [Tree.alloc, OrderedMap.get?_set, if_neg hk.ne]
  known k hk hlt := by
    have hk' : k = t.next := Nat.le_antisymm (Nat.lt_succ_iff.mp hlt) hk
    rw [itemOf_alloc, if_pos hk']
    simp
  unused k hk := by
    have hk' : t.next < k := hk
    rw [itemOf_alloc, if_neg hk'.ne', hu k hk'.le]

/-- An inode of one of the new numbers may still be replaced. -/
theorem put (h : t.Grown t') {n : Nat} (hn : t.next ≤ n) (hn' : n < t'.next) (i : Inode) :
    t.Grown (t'.put n i) where
  next_le := h.next_le
  old k hk := by
    rw [Tree.put, OrderedMap.get?_set, if_neg (by omega), h.old k hk]
  known k hk hlt := by
    rw [itemOf_put]
    split
    · simp
    · exact h.known k hk hlt
  unused k hk := by
    have hk' : t'.next ≤ k := hk
    rw [itemOf_put, if_neg (by omega), h.unused k hk']

end Grown

/-- From some number of levels on, the numbers below a node are a range. -/
def Spans (t : Tree) (numbers : List Nat) (first last : Nat) : Prop :=
  ∃ enough, ∀ fuel, enough ≤ fuel →
    numbers.flatMap (t.below fuel) = List.range' first (last - first)

/-- Numbers span the same part of a tree that has the same inodes there. -/
theorem Spans.congr {numbers : List Nat} {first last : Nat} (h : t.Spans numbers first last)
    (hs : ∀ k, first ≤ k → k < last → t'.nodes.get? k = t.nodes.get? k) :
    t'.Spans numbers first last := by
  obtain ⟨enough, he⟩ := h
  refine ⟨enough, fun fuel hf => ?_⟩
  rw [← he fuel hf]
  refine List.flatMap_congr fun n hn => below_congr fun k hk => ?_
  have hk' : k ∈ numbers.flatMap (t.below fuel) := List.mem_flatMap.mpr ⟨n, hn, hk⟩
  rw [he fuel hf, List.mem_range'_1] at hk'
  exact hs k hk'.1 (by omega)

/-- Numbers of two parts that meet span both. -/
theorem Spans.append {numbers numbers' : List Nat} {first middle last : Nat}
    (h : t.Spans numbers first middle) (h' : t.Spans numbers' middle last)
    (hm : first ≤ middle) (hl : middle ≤ last) : t.Spans (numbers ++ numbers') first last := by
  obtain ⟨enough, he⟩ := h
  obtain ⟨enough', he'⟩ := h'
  refine ⟨max enough enough', fun fuel hf => ?_⟩
  have hmiddle : middle = first + (middle - first) := by omega
  have hlength : last - first = (middle - first) + (last - middle) := by omega
  rw [List.flatMap_append, he fuel (by omega), he' fuel (by omega), hlength,
    ← List.range'_append_1, ← hmiddle]

/-- The number of a node comes before those of what is below it. -/
theorem Spans.node {n last : Nat} {i : Inode} (hi : t.nodes.get? n = some i)
    (h : t.Spans i.children.values (n + 1) last) (hl : n < last) : t.Spans [n] n last := by
  obtain ⟨enough, he⟩ := h
  refine ⟨enough + 1, fun fuel hf => ?_⟩
  cases fuel with
  | zero => omega
  | succ fuel =>
    have hlength : last - n = (last - (n + 1)) + 1 := by omega
    rw [List.flatMap_singleton, below, hi, hlength, List.range'_succ]
    exact congrArg _ (he fuel (by omega))

/-- A directory is planted with its entries, and then put under the first of the new numbers. -/
theorem plant_directory (t : Tree) (a : Attributes) (entries : List (String × Node)) :
    t.plant (.directory a entries) =
      (((t.alloc ⟨a, .directory ∅⟩).1.plantAll ∅ entries).1.put t.next
        ⟨a, .directory ((t.alloc ⟨a, .directory ∅⟩).1.plantAll ∅ entries).2⟩, t.next) := by
  rw [plant]
  rfl

mutual

/-- A planted node has the first of the new numbers, and those below it are all of them. -/
theorem plant_spec (node : Node) (t : Tree) (hu : ∀ k, t.next ≤ k → t.itemOf k = none) :
    (t.plant node).2 = t.next ∧ t.next < (t.plant node).1.next ∧ t.Grown (t.plant node).1 ∧
      (∃ i, (t.plant node).1.nodes.get? t.next = some i ∧ i.isDirectory = node.isDirectory) ∧
      (t.plant node).1.Spans [t.next] t.next (t.plant node).1.next := by
  cases node with
  | file a content =>
    have hi : (t.plant (.file a content)).1.nodes.get? t.next = some ⟨a, .file content⟩ := by
      rw [plant, alloc, OrderedMap.get?_set, if_pos rfl]
    refine ⟨by rw [plant, alloc], by simp [plant, alloc], ?_, ⟨_, hi, rfl⟩, ?_⟩
    · rw [plant]
      exact Grown.alloc hu _
    · have hlast : (t.plant (.file a content)).1.next = t.next + 1 := by rw [plant, alloc]
      refine Spans.node hi ⟨0, fun fuel _ => ?_⟩ (by omega)
      rw [hlast, Nat.sub_self]
      rfl
  | directory a entries =>
    have halloc := Grown.alloc hu ⟨a, .directory ∅⟩
    obtain ⟨hgrown, numbers, hvalues, hspans⟩ :=
      plantAll_spec entries (t.alloc ⟨a, .directory ∅⟩).1 ∅ halloc.unused
    rw [plant_directory]
    generalize (t.alloc ⟨a, .directory ∅⟩).1.plantAll ∅ entries = planted at *
    have hlt : t.next < planted.1.next := hgrown.next_le
    have hi : (planted.1.put t.next ⟨a, .directory planted.2⟩).nodes.get? t.next =
        some ⟨a, .directory planted.2⟩ := by
      rw [put, OrderedMap.get?_set, if_pos rfl]
    refine ⟨rfl, hlt, (halloc.trans hgrown).put (Nat.le_refl _) hlt _, ⟨_, hi, rfl⟩, ?_⟩
    refine Spans.node hi ?_ hlt
    change Spans _ planted.2.values _ _
    rw [hvalues]
    refine hspans.congr fun k hk _ => ?_
    have hne : k ≠ t.next := Nat.ne_of_gt hk
    rw [put, OrderedMap.get?_set, if_neg hne]

/-- Planted entries have the new numbers one range after the other. -/
theorem plantAll_spec (entries : List (String × Node)) (t : Tree)
    (children : OrderedMap String Nat) (hu : ∀ k, t.next ≤ k → t.itemOf k = none) :
    t.Grown (t.plantAll children entries).1 ∧ ∃ numbers,
      (t.plantAll children entries).2.values = children.values ++ numbers ∧
      (t.plantAll children entries).1.Spans numbers t.next
        (t.plantAll children entries).1.next := by
  cases entries with
  | nil =>
    rw [plantAll]
    exact ⟨Grown.refl hu, [], by simp, 0, fun _ _ => by simp⟩
  | cons entry rest =>
    obtain ⟨name, node⟩ := entry
    rw [plantAll]
    split
    · exact plantAll_spec rest t children hu
    · next hnew =>
      obtain ⟨hn, hlt, hgrown, -, hspans⟩ := plant_spec node t hu
      dsimp only
      generalize t.plant node = planted at *
      obtain ⟨hgrown', numbers, hvalues, hspans'⟩ :=
        plantAll_spec rest planted.1 (children.set name planted.2) hgrown.unused
      generalize planted.1.plantAll (children.set name planted.2) rest = all at *
      refine ⟨hgrown.trans hgrown', t.next :: numbers, ?_, ?_⟩
      · have hkey : name ∉ children.keys := by simpa [OrderedMap.contains] using hnew
        rw [hvalues, OrderedMap.values_set_of_new hkey, hn, List.append_assoc,
          List.singleton_append]
      · refine Spans.append (hspans.congr fun k _ hk => hgrown'.old k hk) hspans'
          hlt.le hgrown'.next_le

end

/-- The tree of a directory is well-formed. -/
theorem wellFormed_ofNode {node : Node} (hdir : node.isDirectory = true) :
    (ofNode node).WellFormed := by
  have hbare : ∀ k, ({ bare with next := 1 } : Tree).itemOf k = none := fun _ => rfl
  obtain ⟨hroot, hlt, hgrown, ⟨i, hi, hidir⟩, enough, hbelow⟩ :=
    plant_spec node { bare with next := 1 } fun k _ => hbare k
  have hof : ofNode node = { (plant { bare with next := 1 } node).1 with root := 1 } := by
    rw [ofNode]
    dsimp only
    rw [hroot]
  -- the root is no part of what the numbers below a node depend on
  have hsame : ∀ fuel n, (ofNode node).below fuel n =
      (plant { bare with next := 1 } node).1.below fuel n := fun fuel n =>
    below_congr fun k _ => by rw [hof]
  have hnumbers : ∀ fuel, enough ≤ fuel →
      (ofNode node).below fuel 1 = List.range' 1 ((ofNode node).next - 1) := by
    intro fuel hf
    rw [hsame, hof]
    simpa using hbelow fuel hf
  have hknown : ∀ m, (ofNode node).itemOf m ≠ none ↔ 1 ≤ m ∧ m < (ofNode node).next := by
    intro m
    have hitem : (ofNode node).itemOf m = (plant { bare with next := 1 } node).1.itemOf m := by
      rw [hof]
      rfl
    rw [hitem, hof]
    constructor
    · intro hm
      refine ⟨?_, Nat.lt_of_not_le fun hle => hm (hgrown.unused m hle)⟩
      by_contra hzero
      have hold := hgrown.old m (show m < 1 by omega)
      rw [itemOf, hold] at hm
      exact hm (hbare m)
    · rintro ⟨hle, hm⟩
      exact hgrown.known m hle hm
  have hrootof : (ofNode node).root = 1 := by rw [hof]
  have hfound : ∀ p m, (ofNode node).find? p = some m →
      m ∈ (ofNode node).below (max enough (p.length + 1)) 1 := by
    intro p m hp
    rw [find?, hrootof] at hp
    exact mem_below.mpr ⟨p, by omega, hp⟩
  apply WellFormed.of_find?
  case hroot =>
    rw [hrootof, ← exists_directory_iff]
    exact ⟨i, by rw [hof]; exact hi, by rw [hidir, hdir]⟩
  case hmem =>
    intro p m hp
    have hm := hfound p m hp
    rw [hnumbers _ (by omega), List.mem_range'_1] at hm
    exact (hknown m).mpr (by omega)
  case hreached =>
    intro m hm
    have hm' : m ∈ (ofNode node).below enough 1 := by
      rw [hnumbers enough (Nat.le_refl _), List.mem_range'_1]
      have hrange := (hknown m).mp hm
      omega
    obtain ⟨s, -, hs⟩ := mem_below.mp hm'
    exact ⟨s, by rw [find?, hrootof, hs]⟩
  case hinj =>
    intro p q m hp hq
    rw [find?, hrootof] at hp hq
    have hnodup : ((ofNode node).below (max enough (max p.length q.length + 1)) 1).Nodup := by
      rw [hnumbers _ (by omega)]
      exact List.nodup_range'
    exact walk_injective_of_nodup_below hnodup (by omega) (by omega) hp hq
  case hnext =>
    exact fun m hm => ((hknown m).mp hm).2

/-- The empty tree has its root and nothing else. -/
theorem itemOf_empty (now : Int) (n : Nat) :
    (Tree.empty now).itemOf n = if n = 0 then some ⟨.ofDirectory now, none⟩ else none := by
  rw [Tree.empty, itemOf_alloc]
  rfl

/-- The tree that holds an empty directory and nothing else is well-formed. -/
theorem wellFormed_empty (now : Int) : (Tree.empty now).WellFormed := by
  have hitem := itemOf_empty now
  have hfind : ∀ p, (Tree.empty now).find? p = if p = [] then some 0 else none := by
    refine find?_eq_of_step rfl ?_
    intro p name
    rw [if_neg (by simp)]
    split
    · rfl
    · rfl
  apply WellFormed.of_find?
  case hroot =>
    exact ⟨_, hitem 0, rfl⟩
  case hmem =>
    intro p n hp
    rw [hfind] at hp
    split at hp
    · obtain rfl : 0 = n := Option.some.inj hp
      rw [hitem]
      simp
    · cases hp
  case hreached =>
    intro n hn
    rw [hitem] at hn
    split at hn
    · next h => exact ⟨[], by rw [hfind, h, if_pos rfl]⟩
    · exact absurd rfl hn
  case hinj =>
    intro p q n hp hq
    rw [hfind] at hp hq
    split at hp <;> split at hq <;> simp_all
  case hnext =>
    intro n hn
    rw [hitem] at hn
    split at hn
    · next h =>
      rw [h]
      exact Nat.zero_lt_one
    · exact absurd rfl hn

/-- The node of an outermost record is a directory. -/
theorem isDirectory_ofRootRecord {now : Int} {record : Json} {node : Node}
    (h : Node.ofRootRecord now record = .ok node) : node.isDirectory = true := by
  unfold Node.ofRootRecord at h
  split at h
  · next fields =>
    split at h
    · next htype =>
      simp only [Node.ofRecord, htype] at h
      cases ha : Node.readAttributes (.ofDirectory now) fields with
      | error e =>
        rw [ha] at h
        cases h
      | ok a =>
        cases he : Node.ofChildren now fields with
        | error e =>
          rw [ha, he] at h
          cases h
        | ok entries =>
          rw [ha, he] at h
          cases h
          rfl
    · cases h
  · cases h

/-- A tree that is read from a record is that of a node that is read from it. -/
theorem exists_node_of_ofRecord {now : Int} {record : Json} {t : Tree}
    (h : Tree.ofRecord now record = .ok t) :
    ∃ node, Node.ofRootRecord now record = .ok node ∧ t = ofNode node := by
  rw [Tree.ofRecord] at h
  cases hn : Node.ofRootRecord now record with
  | error e =>
    rw [hn] at h
    cases h
  | ok node =>
    rw [hn] at h
    cases h
    exact ⟨node, rfl, rfl⟩

/-- A tree that is read from a record is well-formed. -/
theorem wellFormed_ofRecord {now : Int} {record : Json} {t : Tree}
    (h : Tree.ofRecord now record = .ok t) : t.WellFormed := by
  obtain ⟨node, hn, rfl⟩ := exists_node_of_ofRecord h
  exact wellFormed_ofNode (isDirectory_ofRootRecord hn)

end TreeShell.Tree
