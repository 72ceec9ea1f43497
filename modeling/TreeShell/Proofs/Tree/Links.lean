import TreeShell.Proofs.Tree.WellFormed
import TreeShell.Tree.Edit

/-!
# Changes of entries

What the small steps of an edit do to the nodes and the entries of a tree, and what the two changes
come to that leave every node where it is: a new node without entries is added, and an inode is
replaced by one with the same entries. Each keeps a tree well-formed, and is told by which places
are found afterwards and what is there.
-/

namespace TreeShell.Tree

variable {t : Tree}

/-! ## Small steps -/

/-- Other children keep the root. -/
@[simp] theorem root_putChildren (t : Tree) (d : Nat) (children : OrderedMap String Nat) :
    (t.putChildren d children).root = t.root := by
  unfold putChildren
  split <;> rfl

/-- Other children keep the next number. -/
@[simp] theorem next_putChildren (t : Tree) (d : Nat) (children : OrderedMap String Nat) :
    (t.putChildren d children).next = t.next := by
  unfold putChildren
  split <;> rfl

/-- A link keeps the root. -/
@[simp] theorem root_link (t : Tree) (d : Nat) (name : String) (m : Nat) :
    (t.link d name m).root = t.root := by
  unfold link
  split <;> simp

/-- A link keeps the next number. -/
@[simp] theorem next_link (t : Tree) (d : Nat) (name : String) (m : Nat) :
    (t.link d name m).next = t.next := by
  unfold link
  split <;> simp

/-- To unlink an entry keeps the root. -/
@[simp] theorem root_unlink (t : Tree) (d : Nat) (name : String) :
    (t.unlink d name).root = t.root := by
  unfold unlink
  split <;> simp

/-- To unlink an entry keeps the next number. -/
@[simp] theorem next_unlink (t : Tree) (d : Nat) (name : String) :
    (t.unlink d name).next = t.next := by
  unfold unlink
  split <;> simp

/-- A new entry keeps the root. -/
@[simp] theorem root_add (t : Tree) (d : Nat) (name : String) (i : Inode) :
    (t.add d name i).1.root = t.root :=
  root_link _ d name t.next

/-- A new entry takes the next number. -/
@[simp] theorem next_add (t : Tree) (d : Nat) (name : String) (i : Inode) :
    (t.add d name i).1.next = t.next + 1 :=
  next_link _ d name t.next

/-- An inode that is put tells its own, and every other what it told before. -/
theorem itemOf_put (t : Tree) (k : Nat) (i : Inode) (n : Nat) :
    (t.put k i).itemOf n = if n = k then some i.item else t.itemOf n := by
  rw [itemOf, put, OrderedMap.get?_set]
  split <;> rfl

/-- An inode that is put in has its own children, and all others keep theirs. -/
theorem child?_put (t : Tree) (k : Nat) (i : Inode) (n : Nat) (name : String) :
    (t.put k i).child? n name = if n = k then i.children.get? name else t.child? n name := by
  rw [child?, put, OrderedMap.get?_set]
  split <;> rfl

/-- A new inode tells its own, and every other what it told before. -/
theorem itemOf_alloc (t : Tree) (i : Inode) (n : Nat) :
    (t.alloc i).1.itemOf n = if n = t.next then some i.item else t.itemOf n :=
  itemOf_put t t.next i n

/-- A new inode has its own children, and all others keep theirs. -/
theorem child?_alloc (t : Tree) (i : Inode) (n : Nat) (name : String) :
    (t.alloc i).1.child? n name =
      if n = t.next then i.children.get? name else t.child? n name :=
  child?_put t t.next i n name

/-- The entries of an inode that is there are put by putting the inode with them. -/
theorem putChildren_of_get? {d : Nat} {i : Inode} (hi : t.nodes.get? d = some i)
    (children : OrderedMap String Nat) :
    t.putChildren d children = t.put d { i with body := .directory children } := by
  rw [putChildren, hi]

/-- Other children keep the number of inodes. -/
@[simp] theorem size_putChildren (t : Tree) (d : Nat) (children : OrderedMap String Nat) :
    (t.putChildren d children).nodes.size = t.nodes.size := by
  rw [putChildren]
  split
  · next i hi => exact OrderedMap.size_set_of_mem (OrderedMap.mem_keys_iff.mpr ⟨i, hi⟩) _
  · rfl

/-- Other entries do not change what a directory is without them. -/
theorem itemOf_putChildren {d : Nat} {i : Inode} (hi : t.nodes.get? d = some i)
    (hd : i.isDirectory = true) (children : OrderedMap String Nat) (n : Nat) :
    (t.putChildren d children).itemOf n = t.itemOf n := by
  rw [putChildren_of_get? hi, itemOf_put]
  split
  · next hn =>
    rw [hn, itemOf_of_get? hi, Inode.item, Inode.item, Inode.body_of_directory hd]
  · rfl

/-- A link adds one entry to one directory. -/
theorem child?_link {d : Nat} {i : Inode} (hi : t.nodes.get? d = some i) (name : String)
    (m n : Nat) (name' : String) :
    (t.link d name m).child? n name' =
      if n = d ∧ name' = name then some m else t.child? n name' := by
  rw [link, hi]
  dsimp only
  rw [putChildren_of_get? hi, child?_put]
  by_cases hn : n = d
  · rw [if_pos hn, hn, child?_of_get? hi]
    change (i.children.set name m).get? name' = _
    rw [OrderedMap.get?_set]
    simp
  · rw [if_neg hn, if_neg fun h => hn h.1]

/-- A link changes nothing of what a node tells of itself. -/
theorem itemOf_link {d : Nat} {i : Inode} (hi : t.nodes.get? d = some i)
    (hd : i.isDirectory = true) (name : String) (m n : Nat) :
    (t.link d name m).itemOf n = t.itemOf n := by
  rw [link, hi]
  exact itemOf_putChildren hi hd _ n

/-- To unlink takes one entry out of one directory. -/
theorem child?_unlink {d : Nat} {i : Inode} (hi : t.nodes.get? d = some i) (name : String)
    (n : Nat) (name' : String) :
    (t.unlink d name).child? n name' =
      if n = d ∧ name' = name then none else t.child? n name' := by
  rw [unlink, hi]
  dsimp only
  rw [putChildren_of_get? hi, child?_put]
  by_cases hn : n = d
  · rw [if_pos hn, hn, child?_of_get? hi]
    change (i.children.erase name).get? name' = _
    rw [OrderedMap.get?_erase]
    simp
  · rw [if_neg hn, if_neg fun h => hn h.1]

/-- To unlink changes nothing of what a node tells of itself. -/
theorem itemOf_unlink {d : Nat} {i : Inode} (hi : t.nodes.get? d = some i)
    (hd : i.isDirectory = true) (name : String) (n : Nat) :
    (t.unlink d name).itemOf n = t.itemOf n := by
  rw [unlink, hi]
  exact itemOf_putChildren hi hd _ n

/-- What is released is there no more; every other inode tells what it told before. -/
theorem itemOf_release (t : Tree) (k n : Nat) :
    (t.release k).itemOf n = if n ∈ t.below t.nodes.size k then none else t.itemOf n := by
  rw [itemOf, release, OrderedMap.get?_foldl_erase]
  split <;> rfl

/-- What is released has no children, and all others keep theirs. -/
theorem child?_release (t : Tree) (k n : Nat) (name : String) :
    (t.release k).child? n name =
      if n ∈ t.below t.nodes.size k then none else t.child? n name := by
  rw [child?, release, OrderedMap.get?_foldl_erase]
  split <;> rfl

/-- Walks from a node are the same in another tree in which all nodes on the way have the same
entries. -/
theorem walk_congr {t' : Tree} {n : Nat}
    (hc : ∀ s m, t.walk n s = some m → ∀ name, t'.child? m name = t.child? m name)
    (s : Segments) : t'.walk n s = t.walk n s := by
  induction s generalizing n with
  | nil => rfl
  | cons name s ih =>
    rw [walk, walk, hc [] n rfl name]
    cases hk : t.child? n name with
    | none => rfl
    | some k =>
      rw [Option.bind_some, Option.bind_some]
      exact ih fun s m hw => hc (name :: s) m (by rw [walk, hk, Option.bind_some, hw])

/-! ## A directory at a place -/

/-- A place has a directory, which has a number. -/
structure DirectoryAt (t : Tree) (p : Segments) (d : Nat) : Prop where
  /-- The number is found at the place. -/
  found : t.find? p = some d
  /-- It is that of a directory. -/
  directory : ∃ i, t.nodes.get? d = some i ∧ i.isDirectory = true

/-- The map has a directory at a place just if the tree has. -/
theorem hasDirectory_iff {p : Segments} : t.item?.HasDirectory p ↔ ∃ d, t.DirectoryAt p d := by
  constructor
  · rintro ⟨item, hi, hd⟩
    obtain ⟨d, hf, hi⟩ := item?_eq_some hi
    exact ⟨d, hf, exists_directory_iff.mpr ⟨item, hi, hd⟩⟩
  · rintro ⟨d, hf, hd⟩
    obtain ⟨item, hi, hd⟩ := exists_directory_iff.mp hd
    exact ⟨item, by rw [item?_of_find? hf, hi], hd⟩

/-- Above what is found there are directories. -/
theorem directoryAt_of_find? {p s : Segments} {name : String} {n : Nat}
    (h : t.find? (p ++ name :: s) = some n) : ∃ d, t.DirectoryAt p d := by
  rw [find?_append] at h
  obtain ⟨d, hd, hw⟩ := Option.bind_eq_some_iff.mp h
  obtain ⟨m, hm, -⟩ := Option.bind_eq_some_iff.mp hw
  exact ⟨d, hd, isDirectory_of_child? hm⟩

/-- The root of a well-formed tree is a directory. -/
theorem WellFormed.directoryAt_root (h : t.WellFormed) : t.DirectoryAt [] t.root :=
  ⟨find?_nil, h.root_directory⟩

/-- The directory that an edit finds above a place is there, with the entries that it finds. -/
theorem parent?_eq_some {place : Segments} {d : Nat} {i : Inode}
    {children : OrderedMap String Nat} (h : t.parent? place = some (d, i, children)) :
    t.DirectoryAt place.dropLast d ∧ t.nodes.get? d = some i ∧ i.children = children := by
  unfold parent? at h
  split at h
  · next number inode hl =>
    split at h
    · next children' hb =>
      obtain ⟨rfl, rfl, rfl⟩ : number = d ∧ inode = i ∧ children' = children := by simpa using h
      obtain ⟨hf, hg⟩ := lookup_eq_some_iff.mp hl
      exact ⟨⟨hf, inode, hg, by rw [Inode.isDirectory, hb]⟩, hg, by rw [Inode.children, hb]⟩
    · cases h
  · cases h

/-! ## A new node -/

/-- A directory has another number than the one that comes next. -/
theorem DirectoryAt.ne_next (h : t.WellFormed) {p : Segments} {d : Nat} (hd : t.DirectoryAt p d) :
    d ≠ t.next :=
  (h.below_next d (h.mem_of_find? hd.found)).ne

section Add

variable (h : t.WellFormed) {p : Segments} {d : Nat} {name : String} {i : Inode}
  (hd : t.DirectoryAt p d)

include h hd

/-- A new entry has its own item, and all others keep theirs. -/
theorem itemOf_add (name : String) (i : Inode) (n : Nat) :
    (t.add d name i).1.itemOf n = if n = t.next then some i.item else t.itemOf n := by
  obtain ⟨j, hj, hdir⟩ := hd.directory
  have hj' : (t.alloc i).1.nodes.get? d = some j := by
    rw [alloc, OrderedMap.get?_set, if_neg (hd.ne_next h), hj]
  change ((t.alloc i).1.link d name t.next).itemOf n = _
  rw [itemOf_link hj' hdir, itemOf_alloc]

/-- An inode that is added becomes an entry under the number that came next. -/
theorem child?_add (hleaf : i.children = ∅) (n : Nat) (name' : String) :
    (t.add d name i).1.child? n name' =
      if n = d ∧ name' = name then some t.next else t.child? n name' := by
  obtain ⟨j, hj, -⟩ := hd.directory
  have hj' : (t.alloc i).1.nodes.get? d = some j := by
    rw [alloc, OrderedMap.get?_set, if_neg (hd.ne_next h), hj]
  change ((t.alloc i).1.link d name t.next).child? n name' = _
  rw [child?_link hj', child?_alloc, hleaf]
  by_cases hn : n = t.next
  · rw [hn, child?_of_unknown h.itemOf_next, if_pos rfl]
    rfl
  · rw [if_neg hn]

/-- A new node is found where it was added; all else is found where it was. -/
theorem find?_add (hnew : t.child? d name = none) (hleaf : i.children = ∅) (q : Segments) :
    (t.add d name i).1.find? q = if q = p ++ [name] then some t.next else t.find? q := by
  refine find?_eq_of_step (f := fun q => if q = p ++ [name] then some t.next else t.find? q)
    (by simp [find?_nil]) ?_ q
  intro q name'
  by_cases hq : q = p ++ [name]
  · -- nothing was below the new place, and the new node has no entries
    have hne : q ++ [name'] ≠ p ++ [name] := by simp [hq]
    have hnone : t.find? (p ++ [name]) = none := by
      rw [find?_concat, hd.found, Option.bind_some, hnew]
    rw [if_neg hne, if_pos hq, find?_concat, hq, hnone, Option.bind_none, Option.bind_some,
      child?_add h hd hleaf, if_neg fun he => hd.ne_next h he.1.symm,
      child?_of_unknown h.itemOf_next]
  · rw [if_neg hq, find?_concat]
    cases hm : t.find? q with
    | none =>
      have hne : q ++ [name'] ≠ p ++ [name] := by
        intro he
        rw [(List.append_inj' he rfl).1, hd.found] at hm
        cases hm
      rw [if_neg hne]
      rfl
    | some m =>
      rw [Option.bind_some, Option.bind_some, child?_add h hd hleaf]
      have hiff : q ++ [name'] = p ++ [name] ↔ m = d ∧ name' = name := by
        constructor
        · intro he
          obtain ⟨rfl, hs⟩ := List.append_inj' he rfl
          exact ⟨Option.some.inj (hm.symm.trans hd.found), List.singleton_inj.mp hs⟩
        · rintro ⟨rfl, rfl⟩
          rw [h.find?_injective hm hd.found]
      simp only [hiff]

/-- A new node is the only change to the plain map. -/
theorem item?_add (hnew : t.child? d name = none) (hleaf : i.children = ∅) (q : Segments) :
    (t.add d name i).1.item? q = if q = p ++ [name] then some i.item else t.item? q := by
  rw [item?, find?_add h hd hnew hleaf]
  by_cases hq : q = p ++ [name]
  · rw [if_pos hq, if_pos hq, Option.bind_some, itemOf_add h hd, if_pos rfl]
  · rw [if_neg hq, if_neg hq, item?]
    cases hm : t.find? q with
    | none => rfl
    | some m =>
      have hne : m ≠ t.next := (h.below_next m (h.mem_of_find? hm)).ne
      rw [Option.bind_some, Option.bind_some, itemOf_add h hd, if_neg hne]

/-- A well-formed tree stays so when a leaf is added at a free place. -/
theorem wellFormed_add (hnew : t.child? d name = none) (hleaf : i.children = ∅) :
    (t.add d name i).1.WellFormed := by
  have hfind := find?_add (i := i) h hd hnew hleaf
  have hitem := itemOf_add h hd name i
  have hlt : ∀ {q n}, t.find? q = some n → n < t.next := fun hq =>
    h.below_next _ (h.mem_of_find? hq)
  apply WellFormed.of_find?
  case hroot =>
    rw [root_add, hitem, if_neg (h.below_next _ h.root_mem).ne]
    exact exists_directory_iff.mp h.root_directory
  case hmem =>
    intro q n hq
    rw [hfind] at hq
    rw [hitem]
    split at hq
    · obtain rfl : t.next = n := Option.some.inj hq
      simp
    · rw [if_neg (hlt hq).ne, Ne, itemOf_eq_none_iff, not_not]
      exact h.mem_of_find? hq
  case hreached =>
    intro n hn
    rw [hitem] at hn
    split at hn
    · next he => exact ⟨p ++ [name], by rw [hfind, if_pos rfl, he]⟩
    · rw [Ne, itemOf_eq_none_iff, not_not] at hn
      obtain ⟨q, hq⟩ := h.reached n hn
      have hne : q ≠ p ++ [name] := by
        rintro rfl
        rw [find?_concat, hd.found, Option.bind_some, hnew] at hq
        cases hq
      exact ⟨q, by rw [hfind, if_neg hne, hq]⟩
  case hinj =>
    intro q r n hq hr
    rw [hfind] at hq hr
    split at hq <;> split at hr
    · next hq' hr' => rw [hq', hr']
    · obtain rfl : t.next = n := Option.some.inj hq
      exact absurd (hlt hr) (Nat.lt_irrefl _)
    · obtain rfl : t.next = n := Option.some.inj hr
      exact absurd (hlt hq) (Nat.lt_irrefl _)
    · exact h.find?_injective hq hr
  case hnext =>
    intro n hn
    rw [hitem] at hn
    rw [next_add]
    split at hn
    · omega
    · rw [Ne, itemOf_eq_none_iff, not_not] at hn
      exact (h.below_next n hn).trans (Nat.lt_succ_self _)

end Add

/-! ## Another inode in the same place -/

section Put

variable (h : t.WellFormed) {n : Nat} {i j : Inode} (hi : t.nodes.get? n = some i)
  (hc : j.children = i.children)

include hi hc

/-- An inode with the same entries leaves all nodes where they are. -/
theorem find?_put (q : Segments) : (t.put n j).find? q = t.find? q := by
  refine walk_congr ?_ q
  intro _ m _ name
  rw [child?_put]
  split
  · next hm => rw [hc, hm, child?_of_get? hi]
  · rfl

include h

/-- An inode with the same entries is the only change to the plain map. -/
theorem item?_put {p : Segments} (hp : t.find? p = some n) (q : Segments) :
    (t.put n j).item? q = if q = p then some j.item else t.item? q := by
  rw [item?, find?_put hi hc]
  by_cases hq : q = p
  · rw [if_pos hq, hq, hp, Option.bind_some, itemOf_put, if_pos rfl]
  · rw [if_neg hq, item?]
    cases hm : t.find? q with
    | none => rfl
    | some m =>
      have hne : m ≠ n := fun he => hq (h.find?_injective (he ▸ hm) hp)
      rw [Option.bind_some, Option.bind_some, itemOf_put, if_neg hne]

/-- A well-formed tree stays so when an inode is put in place of one with the same entries. -/
theorem wellFormed_put (hdir : j.isDirectory = i.isDirectory) : (t.put n j).WellFormed := by
  have hknown : ∀ m, (t.put n j).itemOf m ≠ none ↔ m ∈ t.nodes.keys := by
    intro m
    rw [itemOf_put]
    split
    · next hm => simpa [hm] using OrderedMap.mem_keys_iff.mpr ⟨i, hi⟩
    · rw [Ne, itemOf_eq_none_iff, not_not]
  apply WellFormed.of_find?
  case hroot =>
    obtain ⟨r, hr, hd⟩ := h.root_directory
    change ∃ item, (t.put n j).itemOf t.root = some item ∧ item.isDirectory = true
    rw [itemOf_put]
    split
    · next hn =>
      rw [hn, hi, Option.some.injEq] at hr
      exact ⟨j.item, rfl, by rw [Inode.isDirectory_item, hdir, hr, hd]⟩
    · exact ⟨r.item, itemOf_of_get? hr, by rw [Inode.isDirectory_item, hd]⟩
  case hmem =>
    intro q m hq
    rw [find?_put hi hc] at hq
    exact (hknown m).mpr (h.mem_of_find? hq)
  case hreached =>
    intro m hm
    obtain ⟨q, hq⟩ := h.reached m ((hknown m).mp hm)
    exact ⟨q, by rw [find?_put hi hc, hq]⟩
  case hinj =>
    intro q r m hq hr
    rw [find?_put hi hc] at hq hr
    exact h.find?_injective hq hr
  case hnext =>
    exact fun m hm => h.below_next m ((hknown m).mp hm)

end Put

end TreeShell.Tree
