import Mathlib.Data.List.Induction
import Mathlib.Data.List.Pairwise
import TreeShell.Proofs.OrderedMap
import TreeShell.Proofs.Tree.PathMap

/-!
# Walks through a tree of inodes

A tree of inodes is looked at in two ways only: what the node with a number is when all below it is
left out, and which number an entry of it has. A walk, a look-up at a place and the numbers below a
node all come down to the entries.
-/

namespace TreeShell

/-- An inode without its entries. -/
def Inode.item (i : Inode) : Item :=
  match i.body with
  | .file content => ⟨i.attributes, some content⟩
  | .directory _ => ⟨i.attributes, none⟩

namespace Inode

/-- An item is a directory just if its inode is. -/
theorem isDirectory_item (i : Inode) : i.item.isDirectory = i.isDirectory := by
  cases i with
  | mk attributes body => cases body <;> rfl

/-- A file has no entries. -/
theorem children_of_file {i : Inode} (h : i.isDirectory = false) : i.children = ∅ := by
  cases i with
  | mk attributes body =>
    cases body with
    | file content => rfl
    | directory children => cases h

/-- A directory has its children as its body. -/
theorem body_of_directory {i : Inode} (h : i.isDirectory = true) :
    i.body = .directory i.children := by
  cases i with
  | mk attributes body =>
    cases body with
    | file content => cases h
    | directory children => rfl

end Inode

namespace Tree

/-- The node with a number, without its entries. -/
def itemOf (t : Tree) (number : Nat) : Option Item := (t.nodes.get? number).map Inode.item

/-- The node at a place, without its entries. -/
def item? (t : Tree) : PathMap := fun place => (t.find? place).bind t.itemOf

variable {t : Tree}

/-- A number is that of an inode just if it has an item. -/
theorem mem_keys_iff_itemOf {n : Nat} : n ∈ t.nodes.keys ↔ (t.itemOf n).isSome = true := by
  rw [OrderedMap.mem_keys_iff, itemOf, Option.isSome_map, Option.isSome_iff_exists]

/-- A number without an item belongs to no inode. -/
theorem itemOf_eq_none_iff {n : Nat} : t.itemOf n = none ↔ n ∉ t.nodes.keys := by
  rw [mem_keys_iff_itemOf, Option.not_isSome_iff_eq_none]

/-- An inode is found under a number if and only if the number is one of the keys. -/
theorem exists_inode_of_mem {n : Nat} (h : n ∈ t.nodes.keys) :
    ∃ i, t.nodes.get? n = some i :=
  OrderedMap.mem_keys_iff.mp h

/-- The item of a number is that of its inode. -/
theorem itemOf_of_get? {n : Nat} {i : Inode} (h : t.nodes.get? n = some i) :
    t.itemOf n = some i.item := by
  rw [itemOf, h, Option.map_some]

/-- There is a directory under a number just if its item is one. -/
theorem exists_directory_iff {n : Nat} :
    (∃ i, t.nodes.get? n = some i ∧ i.isDirectory = true) ↔
      ∃ item, t.itemOf n = some item ∧ item.isDirectory = true := by
  constructor
  · rintro ⟨i, hi, hd⟩
    exact ⟨i.item, itemOf_of_get? hi, by rw [Inode.isDirectory_item, hd]⟩
  · rintro ⟨item, hi, hd⟩
    obtain ⟨i, hg, rfl⟩ := Option.map_eq_some_iff.mp hi
    exact ⟨i, hg, by rw [← Inode.isDirectory_item, hd]⟩

/-- The children of a number are those of its inode. -/
theorem child?_of_get? {n : Nat} {i : Inode} (h : t.nodes.get? n = some i) (name : String) :
    t.child? n name = i.children.get? name := by
  rw [child?, h, Option.bind_some]

/-- Only a directory has entries. -/
theorem isDirectory_of_child? {n m : Nat} {name : String} (h : t.child? n name = some m) :
    ∃ i, t.nodes.get? n = some i ∧ i.isDirectory = true := by
  obtain ⟨i, hi, hm⟩ := Option.bind_eq_some_iff.mp h
  refine ⟨i, hi, ?_⟩
  by_contra hd
  rw [Inode.children_of_file (Bool.not_eq_true _ ▸ hd)] at hm
  cases hm

/-- Only a number of an inode has children. -/
theorem mem_of_child? {n m : Nat} {name : String} (h : t.child? n name = some m) :
    n ∈ t.nodes.keys := by
  obtain ⟨i, hi, -⟩ := isDirectory_of_child? h
  exact OrderedMap.mem_keys_iff.mpr ⟨i, hi⟩

/-- A node that is no directory has no entries. -/
theorem child?_of_file {n : Nat} {item : Item} (hi : t.itemOf n = some item)
    (hd : item.isDirectory = false) (name : String) : t.child? n name = none := by
  obtain ⟨i, hg, he⟩ := Option.map_eq_some_iff.mp hi
  rw [child?_of_get? hg, Inode.children_of_file (by rw [← Inode.isDirectory_item, he, hd])]
  rfl

/-- A number without an inode has no children. -/
theorem child?_of_unknown {n : Nat} (h : t.itemOf n = none) (name : String) :
    t.child? n name = none := by
  rw [child?, Option.map_eq_none_iff.mp h, Option.bind_none]

/-! ## Walks -/

/-- A walk along two paths goes along the second from where the first ends. -/
theorem walk_append (n : Nat) (p q : Segments) :
    t.walk n (p ++ q) = (t.walk n p).bind fun m => t.walk m q := by
  induction p generalizing n with
  | nil => rfl
  | cons name p ih =>
    simp only [List.cons_append, walk]
    cases t.child? n name with
    | none => rfl
    | some m => exact ih m

theorem find?_nil : t.find? [] = some t.root := rfl

/-- The walk from the root along two paths goes along the second from where the first ends. -/
theorem find?_append (p q : Segments) :
    t.find? (p ++ q) = (t.find? p).bind fun m => t.walk m q :=
  walk_append t.root p q

/-- What is found at the end of a path is a child of what is found before it. -/
theorem find?_concat (p : Segments) (name : String) :
    t.find? (p ++ [name]) = (t.find? p).bind fun m => t.child? m name := by
  rw [find?_append]
  congr 1
  funext m
  simp only [walk, Option.bind_fun_some]

/-- The last step of a walk to a place below the root. -/
theorem find?_concat_eq_some {p : Segments} {name : String} {n : Nat}
    (h : t.find? (p ++ [name]) = some n) :
    ∃ m, t.find? p = some m ∧ t.child? m name = some n := by
  rw [find?_concat] at h
  exact Option.bind_eq_some_iff.mp h

/-- Places are found through the entries alone: a function that starts at the root and goes on
through the entries finds what the tree finds. -/
theorem find?_eq_of_step {f : Segments → Option Nat} (hnil : f [] = some t.root)
    (hstep : ∀ p name, f (p ++ [name]) = (f p).bind fun m => t.child? m name) (p : Segments) :
    t.find? p = f p := by
  induction p using List.reverseRecOn with
  | nil => exact hnil.symm
  | append_singleton p name ih => rw [find?_concat, ih, hstep]

/-- The item at a path belongs to a number that is found there. -/
theorem item?_eq_some {p : Segments} {item : Item} (h : t.item? p = some item) :
    ∃ n, t.find? p = some n ∧ t.itemOf n = some item :=
  Option.bind_eq_some_iff.mp h

/-- The item at a path is that of the number found there. -/
theorem item?_of_find? {p : Segments} {n : Nat} (h : t.find? p = some n) :
    t.item? p = t.itemOf n := by
  rw [item?, h, Option.bind_some]

/-- A look-up finds a number and its inode. -/
theorem lookup_eq_some_iff {p : Segments} {n : Nat} {i : Inode} :
    t.lookup p = some (n, i) ↔ t.find? p = some n ∧ t.nodes.get? n = some i := by
  simp only [lookup, Option.bind_eq_some_iff, Option.map_eq_some_iff, Prod.mk.injEq]
  constructor
  · rintro ⟨m, hm, j, hj, rfl, rfl⟩
    exact ⟨hm, hj⟩
  · rintro ⟨hn, hi⟩
    exact ⟨n, hn, i, hi, rfl, rfl⟩

/-- A look-up tells of the node what the plain map has there. -/
theorem item?_eq_map_lookup (p : Segments) : t.item? p = (t.lookup p).map fun e => e.2.item := by
  rw [item?, lookup]
  cases t.find? p with
  | none => rfl
  | some n =>
    rw [Option.bind_some, Option.bind_some, itemOf, Option.map_map]
    rfl

/-- A look-up fails just if there is no item at the path. -/
theorem lookup_eq_none_iff {p : Segments} : t.lookup p = none ↔ t.item? p = none := by
  rw [item?_eq_map_lookup, Option.map_eq_none_iff]

/-- The item at a path is that of the inode that is looked up. -/
theorem item?_of_lookup {p : Segments} {n : Nat} {i : Inode} (h : t.lookup p = some (n, i)) :
    t.item? p = some i.item := by
  rw [item?_eq_map_lookup, h, Option.map_some]

/-! ## Numbers below a node -/

/-- Below a number are the number itself and what is below its children. -/
theorem mem_below_succ {fuel n m : Nat} :
    m ∈ t.below (fuel + 1) n ↔
      m = n ∨ ∃ name k, t.child? n name = some k ∧ m ∈ t.below fuel k := by
  rw [below, List.mem_cons]
  cases hn : t.nodes.get? n with
  | none => simp [child?, hn]
  | some i =>
    simp only [child?_of_get? hn, List.mem_flatMap, OrderedMap.mem_values_iff]
    constructor
    · rintro (h | ⟨k, ⟨name, hk⟩, h⟩)
      · exact Or.inl h
      · exact Or.inr ⟨name, k, hk, h⟩
    · rintro (h | ⟨name, k, hk, h⟩)
      · exact Or.inl h
      · exact Or.inr ⟨k, ⟨name, hk⟩, h⟩

/-- The numbers below a node are those that walks of bounded length lead to. -/
theorem mem_below {fuel n m : Nat} :
    m ∈ t.below fuel n ↔ ∃ s : Segments, s.length < fuel ∧ t.walk n s = some m := by
  induction fuel generalizing n with
  | zero => simp [below]
  | succ fuel ih =>
    rw [mem_below_succ]
    constructor
    · rintro (rfl | ⟨name, k, hk, h⟩)
      · exact ⟨[], by simp, rfl⟩
      · obtain ⟨s, hs, hw⟩ := ih.mp h
        exact ⟨name :: s, by simpa using hs, by rw [walk, hk, Option.bind_some, hw]⟩
    · rintro ⟨s, hs, hw⟩
      cases s with
      | nil => exact Or.inl (Option.some.inj hw).symm
      | cons name s =>
        obtain ⟨k, hk, hw⟩ := Option.bind_eq_some_iff.mp hw
        exact Or.inr ⟨name, k, hk, ih.mpr ⟨s, by simpa using hs, hw⟩⟩

/-- The numbers below a node are the same in a tree that has the same inodes under them. -/
theorem below_congr {t' : Tree} {fuel n : Nat}
    (hs : ∀ k ∈ t.below fuel n, t'.nodes.get? k = t.nodes.get? k) :
    t'.below fuel n = t.below fuel n := by
  induction fuel generalizing n with
  | zero => rfl
  | succ fuel ih =>
    rw [below, below, hs n (by simp [below])]
    cases hi : t.nodes.get? n with
    | none => rfl
    | some i =>
      refine congrArg _ (List.flatMap_congr fun c hc => ih fun k hk => hs k ?_)
      rw [below, hi]
      exact List.mem_cons_of_mem _ (List.mem_flatMap.mpr ⟨c, hc, hk⟩)

/-- Where no number is below a node twice, the same holds of its entries, and the node itself is not
below them. -/
theorem nodup_below_child {fuel n k : Nat} {name : String} (hn : (t.below (fuel + 1) n).Nodup)
    (hk : t.child? n name = some k) : (t.below fuel k).Nodup ∧ n ∉ t.below fuel k := by
  obtain ⟨i, hi, -⟩ := isDirectory_of_child? hk
  rw [child?_of_get? hi] at hk
  have hv := OrderedMap.mem_values_iff.mpr ⟨name, hk⟩
  rw [below, hi] at hn
  obtain ⟨hroot, hrest⟩ := List.nodup_cons.mp hn
  exact ⟨(List.nodup_flatMap.mp hrest).1 k hv,
    fun hm => hroot (List.mem_flatMap.mpr ⟨k, hv, hm⟩)⟩

/-- Where no number is below a node twice, none is below two of its entries. -/
theorem name_eq_of_nodup_below {fuel n m k k' : Nat} {name name' : String}
    (hn : (t.below (fuel + 1) n).Nodup) (hk : t.child? n name = some k)
    (hk' : t.child? n name' = some k') (hm : m ∈ t.below fuel k) (hm' : m ∈ t.below fuel k') :
    name = name' := by
  obtain ⟨i, hi, -⟩ := isDirectory_of_child? hk
  rw [child?_of_get? hi] at hk hk'
  rw [below, hi] at hn
  have hd := (List.nodup_flatMap.mp (List.nodup_cons.mp hn).2).2
  rw [OrderedMap.values, List.pairwise_map] at hd
  by_contra hne
  have : Std.Symm fun e e' : String × Nat =>
      (Function.onFun List.Disjoint (t.below fuel)) e.2 e'.2 := ⟨fun _ _ h _ hb ha => h ha hb⟩
  exact hd.forall (OrderedMap.mem_entries_iff.mpr hk) (OrderedMap.mem_entries_iff.mpr hk')
    (fun he => hne (congrArg Prod.fst he)) hm hm'

/-- Where no number is below a node twice, no two walks from it lead to the same number. -/
theorem walk_injective_of_nodup_below {fuel n m : Nat} (hn : (t.below fuel n).Nodup)
    {s s' : Segments} (hs : s.length < fuel) (hs' : s'.length < fuel)
    (hw : t.walk n s = some m) (hw' : t.walk n s' = some m) : s = s' := by
  induction fuel generalizing n s s' with
  | zero => omega
  | succ fuel ih =>
    -- a walk of at least one step leads below an entry, and so not back to the node
    have hback : ∀ {name r}, r.length < fuel → t.walk n (name :: r) ≠ some n := by
      intro name r hr hw
      obtain ⟨k, hk, hw⟩ := Option.bind_eq_some_iff.mp hw
      exact (nodup_below_child hn hk).2 (mem_below.mpr ⟨r, hr, hw⟩)
    cases s with
    | nil =>
      obtain rfl : n = m := Option.some.inj hw
      cases s' with
      | nil => rfl
      | cons name' r' => exact absurd hw' (hback (by simpa using hs'))
    | cons name r =>
      have hr : r.length < fuel := by simpa using hs
      cases s' with
      | nil =>
        obtain rfl : n = m := Option.some.inj hw'
        exact absurd hw (hback hr)
      | cons name' r' =>
        have hr' : r'.length < fuel := by simpa using hs'
        obtain ⟨k, hk, hw⟩ := Option.bind_eq_some_iff.mp hw
        obtain ⟨k', hk', hw'⟩ := Option.bind_eq_some_iff.mp hw'
        obtain rfl : name = name' :=
          name_eq_of_nodup_below hn hk hk' (mem_below.mpr ⟨r, hr, hw⟩)
            (mem_below.mpr ⟨r', hr', hw'⟩)
        obtain rfl : k = k' := Option.some.inj (hk.symm.trans hk')
        rw [ih (nodup_below_child hn hk).1 hr hr' hw hw']

end Tree

end TreeShell
