import TreeShell.Proofs.Tree.Walk
import Mathlib.Data.List.Nodup
import Mathlib.Data.List.Infix
import Mathlib.Logic.ExistsUnique

/-!
# Well-formed trees

The inodes of a well-formed tree are exactly one finite tree: all numbers among the entries are
those of nodes, every node but the root is one entry of one directory, and every node is found from
the root. Said of places, this comes to: each node is found at exactly one place, and nothing else
is found. That form bounds how deep a tree is, so that no walk through it runs out of levels.
-/

namespace TreeShell.Tree

/-- The inodes of a tree are one tree, with its root at the top and nothing besides. -/
structure WellFormed (t : Tree) : Prop where
  /-- The root is there, and it is a directory. -/
  root_directory : ∃ i, t.nodes.get? t.root = some i ∧ i.isDirectory = true
  /-- A number among the entries of a node is that of a node. -/
  child_known : ∀ n name m, t.child? n name = some m → m ∈ t.nodes.keys
  /-- A node that is not the root is an entry of one directory, under one name. -/
  one_holder : ∀ m ∈ t.nodes.keys, m ≠ t.root →
    ∃! e : Nat × String, t.child? e.1 e.2 = some m
  /-- The root is no entry. -/
  root_free : ∀ n name, t.child? n name ≠ some t.root
  /-- Every node is found from the root. -/
  reached : ∀ m ∈ t.nodes.keys, ∃ place, t.find? place = some m
  /-- The number that comes next is above all that are in use. -/
  below_next : ∀ m ∈ t.nodes.keys, m < t.next

namespace WellFormed

variable {t : Tree}

theorem root_mem (h : t.WellFormed) : t.root ∈ t.nodes.keys := by
  obtain ⟨i, hi, -⟩ := h.root_directory
  exact OrderedMap.mem_keys_iff.mpr ⟨i, hi⟩

/-- No look-up comes to a number without a node. -/
theorem mem_of_find? (h : t.WellFormed) {p : Segments} {n : Nat} (hp : t.find? p = some n) :
    n ∈ t.nodes.keys := by
  induction p using List.reverseRecOn with
  | nil =>
    obtain rfl : t.root = n := Option.some.inj hp
    exact h.root_mem
  | append_singleton p name _ =>
    obtain ⟨m, -, hm⟩ := find?_concat_eq_some hp
    exact h.child_known m name n hm

/-- No node is found at two places. -/
theorem find?_injective (h : t.WellFormed) {p q : Segments} {n : Nat} (hp : t.find? p = some n)
    (hq : t.find? q = some n) : p = q := by
  induction p using List.reverseRecOn generalizing q n with
  | nil =>
    obtain rfl : t.root = n := Option.some.inj hp
    rcases List.eq_nil_or_concat' q with rfl | ⟨q, name', rfl⟩
    · rfl
    · obtain ⟨m', -, hm'⟩ := find?_concat_eq_some hq
      exact absurd hm' (h.root_free m' name')
  | append_singleton p name ih =>
    obtain ⟨m, hpm, hm⟩ := find?_concat_eq_some hp
    rcases List.eq_nil_or_concat' q with rfl | ⟨q, name', rfl⟩
    · obtain rfl : t.root = n := Option.some.inj hq
      exact absurd hm (h.root_free m name)
    · obtain ⟨m', hqm, hm'⟩ := find?_concat_eq_some hq
      have hn : n ≠ t.root := fun he => h.root_free m name (he ▸ hm)
      have he : (m, name) = (m', name') :=
        (h.one_holder n (h.child_known m name n hm) hn).unique hm hm'
      obtain ⟨rfl, rfl⟩ := Prod.mk.inj he
      rw [ih hpm hqm]

/-- A tree is well-formed if each of its nodes is found at one place and nothing else is found. -/
theorem of_find? (hroot : ∃ item, t.itemOf t.root = some item ∧ item.isDirectory = true)
    (hmem : ∀ p n, t.find? p = some n → t.itemOf n ≠ none)
    (hreached : ∀ m, t.itemOf m ≠ none → ∃ place, t.find? place = some m)
    (hinj : ∀ p q n, t.find? p = some n → t.find? q = some n → p = q)
    (hnext : ∀ m, t.itemOf m ≠ none → m < t.next) : t.WellFormed := by
  have hkey : ∀ {m}, m ∈ t.nodes.keys ↔ t.itemOf m ≠ none := fun {m} =>
    (not_iff_comm.mp itemOf_eq_none_iff.symm).symm
  -- an entry of a node is found one step below the node
  have hstep : ∀ {n name m}, t.child? n name = some m →
      ∃ p, t.find? p = some n ∧ t.find? (p ++ [name]) = some m := by
    intro n name m hm
    obtain ⟨p, hp⟩ := hreached n (hkey.mp (mem_of_child? hm))
    exact ⟨p, hp, by rw [find?_concat, hp, Option.bind_some, hm]⟩
  refine ⟨exists_directory_iff.mpr hroot, ?_, ?_, ?_, fun m hm => hreached m (hkey.mp hm),
    fun m hm => hnext m (hkey.mp hm)⟩
  · intro n name m hm
    obtain ⟨p, -, hp⟩ := hstep hm
    exact hkey.mpr (hmem _ m hp)
  · intro m hm hne
    obtain ⟨p, hp⟩ := hreached m (hkey.mp hm)
    rcases List.eq_nil_or_concat' p with rfl | ⟨p, name, rfl⟩
    · exact absurd (Option.some.inj hp).symm hne
    · obtain ⟨n, hn, hnm⟩ := find?_concat_eq_some hp
      refine ⟨(n, name), hnm, ?_⟩
      rintro ⟨n', name'⟩ hm'
      obtain ⟨q, hq, hqm⟩ := hstep hm'
      obtain ⟨rfl, he⟩ := List.append_inj' (hinj _ _ m hqm hp) rfl
      obtain rfl : n' = n := Option.some.inj (hq.symm.trans hn)
      exact congrArg _ (List.singleton_inj.mp he)
  · intro n name hroot'
    obtain ⟨p, -, hp⟩ := hstep hroot'
    exact absurd (hinj _ _ t.root hp find?_nil) (by simp)

/-- What is found at a place is a node. -/
theorem exists_lookup (h : t.WellFormed) {p : Segments} {n : Nat} (hp : t.find? p = some n) :
    ∃ i, t.nodes.get? n = some i ∧ t.lookup p = some (n, i) := by
  obtain ⟨i, hi⟩ := exists_inode_of_mem (h.mem_of_find? hp)
  exact ⟨i, hi, lookup_eq_some_iff.mpr ⟨hp, hi⟩⟩

theorem item?_eq_none_iff (h : t.WellFormed) {p : Segments} :
    t.item? p = none ↔ t.find? p = none := by
  constructor
  · intro hi
    rw [Option.eq_none_iff_forall_ne_some]
    intro n hn
    rw [item?_of_find? hn, itemOf_eq_none_iff] at hi
    exact hi (h.mem_of_find? hn)
  · intro hf
    rw [item?, hf, Option.bind_none]

/-- The number that comes next has no node. -/
theorem itemOf_next (h : t.WellFormed) : t.itemOf t.next = none :=
  itemOf_eq_none_iff.mpr fun hm => Nat.lt_irrefl _ (h.below_next _ hm)

/-- A place is not as long as the tree has nodes: the places above it hold different nodes. -/
theorem length_lt_size (h : t.WellFormed) {p : Segments} {n : Nat} (hp : t.find? p = some n) :
    p.length < t.nodes.size := by
  -- the numbers found on the way from the root down to `p`
  let chain := (List.range (p.length + 1)).map fun k => t.find? (p.take k)
  have hfound : ∀ k, ∃ m ∈ t.nodes.keys, t.find? (p.take k) = some m := by
    intro k
    rw [← List.take_append_drop k p, find?_append] at hp
    obtain ⟨m, hm, -⟩ := Option.bind_eq_some_iff.mp hp
    exact ⟨m, h.mem_of_find? hm, hm⟩
  have hnodup : chain.Nodup := by
    refine List.Nodup.map_on ?_ List.nodup_range
    intro k hk l hl he
    obtain ⟨m, -, hm⟩ := hfound k
    have htake := congrArg List.length (h.find?_injective hm (he ▸ hm))
    rw [List.mem_range] at hk hl
    rw [List.length_take, List.length_take] at htake
    omega
  have hsub : chain ⊆ t.nodes.keys.map some := by
    intro o ho
    obtain ⟨k, -, rfl⟩ := List.mem_map.mp ho
    obtain ⟨m, hk, hm⟩ := hfound k
    exact List.mem_map.mpr ⟨m, hk, hm.symm⟩
  have hle := hnodup.length_le_of_subset hsub
  rw [List.length_map, List.length_range, List.length_map, OrderedMap.keys, List.length_map] at hle
  exact hle

/-- No walk from a node is as long as the tree has nodes. -/
theorem walk_length_lt (h : t.WellFormed) {n m : Nat} {s : Segments} (hn : n ∈ t.nodes.keys)
    (hw : t.walk n s = some m) : s.length < t.nodes.size := by
  obtain ⟨p, hp⟩ := h.reached n hn
  have hl : (p ++ s).length < t.nodes.size :=
    h.length_lt_size (n := m) (by rw [find?_append, hp, Option.bind_some, hw])
  rw [List.length_append] at hl
  omega

/-- No walk leads back to where it began. -/
theorem walk_acyclic (h : t.WellFormed) {n : Nat} {s : Segments} (hn : n ∈ t.nodes.keys)
    (hw : t.walk n s = some n) : s = [] := by
  obtain ⟨p, hp⟩ := h.reached n hn
  have he := h.find?_injective (p := p ++ s) (q := p)
    (by rw [find?_append, hp, Option.bind_some, hw]) hp
  simpa using he

/-- The numbers below a node are those that walks from it lead to, however long. -/
theorem mem_below_iff (h : t.WellFormed) {n m : Nat} (hn : n ∈ t.nodes.keys) :
    m ∈ t.below t.nodes.size n ↔ ∃ s, t.walk n s = some m := by
  rw [mem_below]
  constructor
  · rintro ⟨s, -, hw⟩
    exact ⟨s, hw⟩
  · rintro ⟨s, hw⟩
    exact ⟨s, h.walk_length_lt hn hw, hw⟩

/-- No number is below a node twice, through however many levels. -/
theorem nodup_below (h : t.WellFormed) (fuel : Nat) {n : Nat} (hn : n ∈ t.nodes.keys) :
    (t.below fuel n).Nodup := by
  induction fuel generalizing n with
  | zero => exact List.nodup_nil
  | succ fuel ih =>
    obtain ⟨i, hi⟩ := exists_inode_of_mem hn
    obtain ⟨p, hp⟩ := h.reached n hn
    have hentry : ∀ {e}, e ∈ i.children.entries → t.child? n e.1 = some e.2 := fun he => by
      rw [child?_of_get? hi, OrderedMap.mem_entries_iff.mp he]
    have hplace : ∀ {e m}, e ∈ i.children.entries → m ∈ t.below fuel e.2 →
        ∃ s, t.find? (p ++ e.1 :: s) = some m := by
      intro e m he hm
      obtain ⟨s, -, hs⟩ := mem_below.mp hm
      exact ⟨s, by rw [find?_append, hp, Option.bind_some, walk, hentry he, Option.bind_some, hs]⟩
    rw [below, hi]
    refine List.nodup_cons.mpr ⟨fun hm => ?_, List.nodup_flatMap.mpr ⟨fun m hm => ?_, ?_⟩⟩
    · obtain ⟨m, hm, hn'⟩ := List.mem_flatMap.mp hm
      obtain ⟨name, hname⟩ := OrderedMap.mem_values_iff.mp hm
      obtain ⟨s, hs⟩ := hplace (OrderedMap.mem_entries_iff.mpr hname) hn'
      exact absurd (h.find?_injective hs hp) (by simp)
    · obtain ⟨name, hname⟩ := OrderedMap.mem_values_iff.mp hm
      exact ih (h.child_known n name m (by rw [child?_of_get? hi, hname]))
    · rw [OrderedMap.values, List.pairwise_map]
      refine (List.Nodup.of_map _ i.children.nodup).imp_of_mem fun {e e'} he he' hne => ?_
      intro m hm hm'
      obtain ⟨s, hs⟩ := hplace he hm
      obtain ⟨s', hs'⟩ := hplace he' hm'
      have hsame := List.append_cancel_left (h.find?_injective hs hs')
      obtain ⟨hname, -⟩ := List.cons.inj hsame
      have hnumber : e.2 = e'.2 := by
        have he₂ := hentry he
        rw [hname, hentry he'] at he₂
        exact (Option.some.inj he₂).symm
      exact hne (Prod.ext hname hnumber)

end WellFormed

end TreeShell.Tree
