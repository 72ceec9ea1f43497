import TreeShell.Proofs.Tree.Links

/-!
# Changes of subtrees

A node is taken out with all that is below it, or goes to another place and takes all below it
along. Both keep a tree well-formed: the numbers that are taken out are exactly those below the
node, which no other place leads to. In the plain map a range of places is left out, or becomes
another range.
-/

namespace TreeShell.Tree

variable {t : Tree}

/-! ## A node taken out with all below it -/

/-- To unlink an entry releases no inode. -/
@[simp] theorem size_unlink (t : Tree) (d : Nat) (name : String) :
    (t.unlink d name).nodes.size = t.nodes.size := by
  unfold unlink
  split
  · exact size_putChildren t d _
  · rfl

section Remove

variable (h : t.WellFormed) {p : Segments} {d c : Nat} {name : String}
  (hd : t.DirectoryAt p d) (hc : t.child? d name = some c)

include hd hc

/-- Paths behind an entry lead where they lead from its number. -/
theorem find?_entry (s : Segments) : t.find? (p ++ [name] ++ s) = t.walk c s := by
  rw [find?_append, find?_concat, hd.found, Option.bind_some, hc, Option.bind_some]

include h

/-- The numbers below an entry are the same once it is no entry any more. -/
theorem below_unlink :
    (t.unlink d name).below (t.unlink d name).nodes.size c = t.below t.nodes.size c := by
  rw [size_unlink]
  refine below_congr fun k hk => ?_
  obtain ⟨s, hs⟩ := (h.mem_below_iff (h.child_known d name c hc)).mp hk
  -- a walk down from an entry of the directory does not lead back to the directory
  have hne : k ≠ d := by
    rintro rfl
    have hw : t.walk k (name :: s) = some k := by rw [walk, hc, Option.bind_some, hs]
    exact absurd (h.walk_acyclic (h.mem_of_find? hd.found) hw) (by simp)
  obtain ⟨i, hi, -⟩ := hd.directory
  rw [unlink, hi]
  dsimp only
  rw [putChildren_of_get? hi, put, OrderedMap.get?_set, if_neg hne]

/-- The numbers taken out are those that are found at the place of the node or below it. -/
theorem mem_below_unlink {m : Nat} :
    m ∈ (t.unlink d name).below (t.unlink d name).nodes.size c ↔ ∃ s, t.walk c s = some m := by
  rw [below_unlink h hd hc, h.mem_below_iff (h.child_known d name c hc)]

/-- Of the nodes that are found, those at or below the place are taken out. -/
theorem walk_iff_prefix {q : Segments} {m : Nat} (hq : t.find? q = some m) :
    (∃ s, t.walk c s = some m) ↔ p ++ [name] <+: q := by
  constructor
  · rintro ⟨s, hs⟩
    rw [← find?_entry hd hc] at hs
    exact ⟨s, h.find?_injective hs hq⟩
  · rintro ⟨s, rfl⟩
    exact ⟨s, by rw [← find?_entry hd hc, hq]⟩

/-- A removal takes the items of the subtree, and no other. -/
theorem itemOf_remove {q : Segments} {m : Nat} (hq : t.find? q = some m) :
    ((t.unlink d name).release c).itemOf m = if p ++ [name] <+: q then none else t.itemOf m := by
  obtain ⟨i, hi, hdir⟩ := hd.directory
  rw [itemOf_release, itemOf_unlink hi hdir]
  simp only [mem_below_unlink h hd hc, walk_iff_prefix h hd hc hq]

/-- A removal takes the entries of the subtree with the one that led to it, and no other. -/
theorem child?_remove {q : Segments} {m : Nat} (hq : t.find? q = some m) (name' : String) :
    ((t.unlink d name).release c).child? m name' =
      if p ++ [name] <+: q ++ [name'] then none else t.child? m name' := by
  obtain ⟨i, hi, -⟩ := hd.directory
  have hiff : p ++ [name] <+: q ++ [name'] ↔ p ++ [name] <+: q ∨ m = d ∧ name' = name := by
    rw [List.prefix_concat_iff, or_comm]
    refine or_congr_right ⟨?_, ?_⟩
    · intro he
      obtain ⟨rfl, hs⟩ := List.append_inj' he rfl
      exact ⟨Option.some.inj (hq.symm.trans hd.found), (List.singleton_inj.mp hs).symm⟩
    · rintro ⟨rfl, rfl⟩
      rw [h.find?_injective hq hd.found]
  rw [child?_release, child?_unlink hi]
  simp only [mem_below_unlink h hd hc, walk_iff_prefix h hd hc hq, hiff]
  split <;> simp_all

/-- Nothing is found any more at the place of the node and below it; all else is found where it
was. -/
theorem find?_remove (q : Segments) :
    ((t.unlink d name).release c).find? q = if p ++ [name] <+: q then none else t.find? q := by
  refine find?_eq_of_step (f := fun q => if p ++ [name] <+: q then none else t.find? q)
    (by simp [find?_nil, release]) ?_ q
  intro q name'
  by_cases hq : p ++ [name] <+: q
  · rw [if_pos (hq.trans (List.prefix_append q [name'])), if_pos hq, Option.bind_none]
  · rw [if_neg hq, find?_concat]
    cases hm : t.find? q with
    | none => simp
    | some m => rw [Option.bind_some, Option.bind_some, child?_remove h hd hc hm]

/-- The plain map loses the place of the node and all places below it, and nothing else. -/
theorem item?_remove (q : Segments) :
    ((t.unlink d name).release c).item? q = if p ++ [name] <+: q then none else t.item? q := by
  rw [item?, find?_remove h hd hc, item?]
  split
  · rfl
  · next hq =>
    cases hm : t.find? q with
    | none => rfl
    | some m => rw [Option.bind_some, Option.bind_some, itemOf_remove h hd hc hm, if_neg hq]

/-- A tree stays well-formed when a subtree is removed. -/
theorem wellFormed_remove : ((t.unlink d name).release c).WellFormed := by
  have hfind := find?_remove h hd hc
  have hknown : ∀ m, ((t.unlink d name).release c).itemOf m ≠ none →
      ∃ q, t.find? q = some m ∧ ¬ p ++ [name] <+: q := by
    intro m hm
    have hkey : m ∈ t.nodes.keys := by
      by_contra hn
      obtain ⟨i, hi, hdir⟩ := hd.directory
      rw [itemOf_release, itemOf_unlink hi hdir, itemOf_eq_none_iff.mpr hn] at hm
      simp at hm
    obtain ⟨q, hq⟩ := h.reached m hkey
    refine ⟨q, hq, fun hp => hm ?_⟩
    rw [itemOf_remove h hd hc hq, if_pos hp]
  apply WellFormed.of_find?
  case hroot =>
    have hroot : ((t.unlink d name).release c).root = t.root := root_unlink t d name
    rw [hroot, itemOf_remove h hd hc find?_nil, if_neg (by simp)]
    exact exists_directory_iff.mp h.root_directory
  case hmem =>
    intro q m hq
    rw [hfind] at hq
    split at hq
    · cases hq
    · next hp =>
      rw [itemOf_remove h hd hc hq, if_neg hp, Ne, itemOf_eq_none_iff, not_not]
      exact h.mem_of_find? hq
  case hreached =>
    intro m hm
    obtain ⟨q, hq, hp⟩ := hknown m hm
    exact ⟨q, by rw [hfind, if_neg hp, hq]⟩
  case hinj =>
    intro q r m hq hr
    rw [hfind] at hq hr
    split at hq <;> split at hr <;> simp_all
    exact h.find?_injective hq hr
  case hnext =>
    intro m hm
    obtain ⟨q, hq, -⟩ := hknown m hm
    change m < (t.unlink d name).next
    rw [next_unlink]
    exact h.below_next m (h.mem_of_find? hq)

end Remove

/-! ## A node that goes to another place -/

/-- The tree without the file that is to give way at a place. -/
def vacate (t : Tree) (place : Segments) : Tree :=
  match t.find? place with
  | some replaced => t.release replaced
  | none => t

/-- To vacate a place keeps the root. -/
@[simp] theorem root_vacate (t : Tree) (place : Segments) : (t.vacate place).root = t.root := by
  unfold vacate
  split <;> rfl

/-- To vacate a place keeps the next number. -/
@[simp] theorem next_vacate (t : Tree) (place : Segments) : (t.vacate place).next = t.next := by
  unfold vacate
  split <;> rfl

/-- To relink is to vacate the destination, unlink the source and link the number anew. -/
theorem relink_eq (t : Tree) (n : Nat) (source destination : Segments) (d d' : Nat) :
    t.relink n source destination d d' =
      ((t.vacate destination).unlink d (Path.nameOf source)).link d' (Path.nameOf destination) n :=
  rfl

theorem nameOf_concat (p : Segments) (name : String) : Path.nameOf (p ++ [name]) = name := by
  simp [Path.nameOf]

section Vacate

variable (h : t.WellFormed) {place : Segments}
  (hfile : ∀ item, t.item? place = some item → item.isDirectory = false)

include hfile

/-- Nothing is below an entry that may be vacated. -/
theorem child?_of_vacated {r : Nat} (hr : t.find? place = some r) (name : String) :
    t.child? r name = none := by
  cases hi : t.itemOf r with
  | none => exact child?_of_unknown hi name
  | some item => exact child?_of_file hi (hfile item (by rw [item?_of_find? hr, hi])) name

include h

/-- A file that gives way has nothing below it: it alone is taken out. -/
theorem mem_below_vacated {r m : Nat} (hr : t.find? place = some r) :
    m ∈ t.below t.nodes.size r ↔ m = r := by
  rw [h.mem_below_iff (h.mem_of_find? hr)]
  constructor
  · rintro ⟨s, hs⟩
    cases s with
    | nil => exact (Option.some.inj hs).symm
    | cons name s =>
      rw [walk, child?_of_vacated hfile hr] at hs
      cases hs
  · rintro rfl
    exact ⟨[], rfl⟩

/-- To vacate a place takes the item that is there, and no other. -/
theorem itemOf_vacate (n : Nat) :
    (t.vacate place).itemOf n = if t.find? place = some n then none else t.itemOf n := by
  unfold vacate
  split
  · next r hr =>
    rw [itemOf_release]
    simp only [mem_below_vacated h hfile hr, hr, Option.some.injEq, eq_comm]
  · next hr => rw [hr, if_neg nofun]

/-- To vacate a place keeps all entries of the tree. -/
theorem child?_vacate (n : Nat) (name : String) :
    (t.vacate place).child? n name = t.child? n name := by
  unfold vacate
  split
  · next r hr =>
    rw [child?_release]
    split
    · next hn => rw [(mem_below_vacated h hfile hr).mp hn, child?_of_vacated hfile hr]
    · rfl
  · rfl

end Vacate

/-- The place one step below a node leads to an entry of a directory just if it is that of the
entry, where the node itself is not below the entry. -/
theorem WellFormed.entry_prefix_iff (h : t.WellFormed) {q r : Segments} {m k : Nat} {a b : String}
    (hm : t.find? q = some m) (hk : t.find? r = some k) (hnot : ¬ r ++ [b] <+: q) :
    r ++ [b] <+: q ++ [a] ↔ m = k ∧ a = b := by
  rw [List.prefix_concat_iff, or_iff_left hnot]
  constructor
  · intro he
    obtain ⟨rfl, hs⟩ := List.append_inj' he rfl
    exact ⟨Option.some.inj (hm.symm.trans hk), (List.singleton_inj.mp hs).symm⟩
  · rintro ⟨rfl, rfl⟩
    rw [h.find?_injective hk hm]

section Relink

variable (h : t.WellFormed) {p p' : Segments} {name name' : String} {d d' n : Nat}
  (hd : t.DirectoryAt p d) (hd' : t.DirectoryAt p' d') (hn : t.find? (p ++ [name]) = some n)
  (hout : ¬ p ++ [name] <+: p' ++ [name'])
  (hfile : ∀ item, t.item? (p' ++ [name']) = some item → item.isDirectory = false)

include h hd hd' hfile

/-- The two directories are there after the destination is vacated and the source unlinked. -/
theorem exists_vacated_directories (name : String) :
    (∃ i, (t.vacate (p' ++ [name'])).nodes.get? d = some i ∧ i.isDirectory = true) ∧
      ∃ i, ((t.vacate (p' ++ [name'])).unlink d name).nodes.get? d' = some i ∧
        i.isDirectory = true := by
  have hkeep : ∀ {q k}, t.DirectoryAt q k →
      ∃ item, (t.vacate (p' ++ [name'])).itemOf k = some item ∧ item.isDirectory = true := by
    intro q k hk
    obtain ⟨item, hi, hdir⟩ := exists_directory_iff.mp hk.directory
    have hne : t.find? (p' ++ [name']) ≠ some k := by
      intro he
      have hf := hfile item (by rw [item?_of_find? he, hi])
      rw [hf] at hdir
      cases hdir
    exact ⟨item, by rw [itemOf_vacate h hfile, if_neg hne, hi], hdir⟩
  have hfirst := exists_directory_iff.mpr (hkeep hd)
  refine ⟨hfirst, ?_⟩
  obtain ⟨i, hi, hdir⟩ := hfirst
  rw [exists_directory_iff, itemOf_unlink hi hdir]
  exact hkeep hd'

/-- A relink keeps all items but the one that stood at the destination. -/
theorem itemOf_relink (name : String) (n m : Nat) :
    (t.relink n (p ++ [name]) (p' ++ [name']) d d').itemOf m =
      if t.find? (p' ++ [name']) = some m then none else t.itemOf m := by
  obtain ⟨⟨i, hi, hdir⟩, j, hj, hdir'⟩ := exists_vacated_directories h hd hd' hfile name
  rw [relink_eq, nameOf_concat, nameOf_concat, itemOf_link hj hdir', itemOf_unlink hi hdir,
    itemOf_vacate h hfile]

/-- A relink leaves the new entry, takes the old one, and keeps all others. -/
theorem child?_relink (m : Nat) (a : String) :
    (t.relink n (p ++ [name]) (p' ++ [name']) d d').child? m a =
      if m = d' ∧ a = name' then some n
      else if m = d ∧ a = name then none else t.child? m a := by
  obtain ⟨⟨i, hi, -⟩, j, hj, -⟩ := exists_vacated_directories h hd hd' hfile name
  rw [relink_eq, nameOf_concat, nameOf_concat, child?_link hj, child?_unlink hi,
    child?_vacate h hfile]

/-- What is found anywhere but at the destination keeps its item. -/
theorem itemOf_relink_of_ne {q : Segments} {m : Nat} (hq : t.find? q = some m)
    (hne : q ≠ p' ++ [name']) :
    (t.relink n (p ++ [name]) (p' ++ [name']) d d').itemOf m = t.itemOf m := by
  rw [itemOf_relink h hd hd' hfile, if_neg fun he => hne (h.find?_injective hq he)]

include hout

/-- No step of a walk down from the old place is changed. -/
theorem child?_relink_of_below {s : Segments} {m : Nat} (hm : t.find? (p ++ [name] ++ s) = some m)
    (a : String) :
    (t.relink n (p ++ [name]) (p' ++ [name']) d d').child? m a = t.child? m a := by
  have hne' : m ≠ d' := by
    rintro rfl
    refine hout ⟨s ++ [name'], ?_⟩
    rw [← List.append_assoc, h.find?_injective hm hd'.found]
  have hne : m ≠ d := by
    rintro rfl
    have hl := congrArg List.length (h.find?_injective hm hd.found)
    simp only [List.length_append, List.length_singleton] at hl
    omega
  rw [child?_relink h hd hd' hfile, if_neg fun he => hne' he.1, if_neg fun he => hne he.1]

include hn

/-- The node and all below it are found at the new place; nothing is found at the old one; all else
is found where it was. -/
theorem find?_relink (q : Segments) :
    (t.relink n (p ++ [name]) (p' ++ [name']) d d').find? q =
      if p' ++ [name'] <+: q then t.find? (p ++ [name] ++ q.drop (p' ++ [name']).length)
      else if p ++ [name] <+: q then none else t.find? q := by
  refine find?_eq_of_step (f := fun q =>
    if p' ++ [name'] <+: q then t.find? (p ++ [name] ++ q.drop (p' ++ [name']).length)
    else if p ++ [name] <+: q then none else t.find? q) (by simp [find?_nil, relink_eq]) ?_ q
  intro q a
  by_cases hq : p' ++ [name'] <+: q
  · -- at the new place or below it: the walk is the one from the old place
    obtain ⟨s, rfl⟩ := hq
    rw [if_pos (List.prefix_append _ s), if_pos ⟨s ++ [a], by simp⟩, List.append_assoc _ s [a],
      List.drop_left, List.drop_left, ← List.append_assoc, find?_concat]
    cases hm : t.find? (p ++ [name] ++ s) with
    | none => rfl
    | some m =>
      rw [Option.bind_some, Option.bind_some, child?_relink_of_below h hd hd' hout hfile hm]
  · rw [if_neg hq]
    by_cases hold : p ++ [name] <+: q
    · -- at the old place or below it: nothing is left
      have hne : ¬ p' ++ [name'] <+: q ++ [a] := by
        rw [List.prefix_concat_iff]
        rintro (he | he)
        · exact hout (he ▸ hold.trans (List.prefix_append q [a]))
        · exact hq he
      rw [if_neg hne, if_pos (hold.trans (List.prefix_append q [a])), if_pos hold,
        Option.bind_none]
    · rw [if_neg hold]
      cases hm : t.find? q with
      | none =>
        -- nothing was found above; so neither the old place nor the new one is the next
        have hne' : ¬ p' ++ [name'] <+: q ++ [a] := by
          rw [List.prefix_concat_iff, not_or]
          refine ⟨fun he => ?_, hq⟩
          rw [← (List.append_inj' he rfl).1, hd'.found] at hm
          cases hm
        rw [if_neg hne', find?_concat, hm, Option.bind_none]
        split <;> rfl
      | some m =>
        rw [Option.bind_some, child?_relink h hd hd' hfile]
        simp only [h.entry_prefix_iff hm hd'.found hq, h.entry_prefix_iff hm hd.found hold]
        split
        · next he =>
          have hlast : p' ++ [name'] = q ++ [a] := by
            rw [h.find?_injective hd'.found (he.1 ▸ hm), he.2]
          rw [← hlast, List.drop_length, List.append_nil, hn]
        · split
          · rfl
          · rw [find?_concat, hm, Option.bind_some]

/-- In the plain map the places at and below the old one become places at and below the new one. -/
theorem item?_relink (q : Segments) :
    (t.relink n (p ++ [name]) (p' ++ [name']) d d').item? q =
      if p' ++ [name'] <+: q then t.item? (p ++ [name] ++ q.drop (p' ++ [name']).length)
      else if p ++ [name] <+: q then none else t.item? q := by
  have hkeep : ∀ r : Segments, r ≠ p' ++ [name'] →
      (t.find? r).bind (t.relink n (p ++ [name]) (p' ++ [name']) d d').itemOf = t.item? r := by
    intro r hr
    rw [item?]
    cases hm : t.find? r with
    | none => rfl
    | some m => exact itemOf_relink_of_ne h hd hd' hfile hm hr
  rw [item?, find?_relink h hd hd' hn hout hfile]
  split
  · exact hkeep _ fun he => hout ⟨_, he⟩
  · next hq =>
    split
    · rfl
    · exact hkeep q fun he => hq (he ▸ List.prefix_refl _)

/-- What was found before the move, and was not the file that gave way, is found after it. -/
theorem reached_relink {q : Segments} {m : Nat} (hq : t.find? q = some m)
    (hne : t.find? (p' ++ [name']) ≠ some m) :
    ∃ r, (t.relink n (p ++ [name]) (p' ++ [name']) d d').find? r = some m := by
  have hfind := find?_relink h hd hd' hn hout hfile
  by_cases hold : p ++ [name] <+: q
  · obtain ⟨s, rfl⟩ := hold
    refine ⟨p' ++ [name'] ++ s, ?_⟩
    rw [hfind, if_pos (List.prefix_append _ s), List.drop_left, hq]
  · have hnew : ¬ p' ++ [name'] <+: q := by
      rintro ⟨s, rfl⟩
      cases s with
      | nil => exact hne (by rwa [List.append_nil] at hq)
      | cons a s =>
        rw [find?_append] at hq
        obtain ⟨r, hr, hw⟩ := Option.bind_eq_some_iff.mp hq
        rw [walk, child?_of_vacated hfile hr] at hw
        cases hw
    exact ⟨q, by rw [hfind, if_neg hnew, if_neg hold, hq]⟩

/-- What is found after the move was found at the old place or below it, or where it is now. -/
theorem find?_relink_cases {q : Segments} {m : Nat}
    (hq : (t.relink n (p ++ [name]) (p' ++ [name']) d d').find? q = some m) :
    (∃ s, q = p' ++ [name'] ++ s ∧ t.find? (p ++ [name] ++ s) = some m) ∨
      ¬ p' ++ [name'] <+: q ∧ ¬ p ++ [name] <+: q ∧ t.find? q = some m := by
  rw [find?_relink h hd hd' hn hout hfile] at hq
  split at hq
  · next hp =>
    obtain ⟨s, rfl⟩ := hp
    rw [List.drop_left] at hq
    exact Or.inl ⟨s, rfl, hq⟩
  · next hnew =>
    split at hq
    · cases hq
    · next hold => exact Or.inr ⟨hnew, hold, hq⟩

/-- A tree stays well-formed when a number is relinked. -/
theorem wellFormed_relink : (t.relink n (p ++ [name]) (p' ++ [name']) d d').WellFormed := by
  have hitem := itemOf_relink h hd hd' hfile name n
  have hknown : ∀ m, (t.relink n (p ++ [name]) (p' ++ [name']) d d').itemOf m ≠ none →
      m ∈ t.nodes.keys ∧ t.find? (p' ++ [name']) ≠ some m := by
    intro m hm
    rw [hitem] at hm
    split at hm
    · exact absurd rfl hm
    · next hne => exact ⟨by rwa [Ne, itemOf_eq_none_iff, not_not] at hm, hne⟩
  apply WellFormed.of_find?
  case hroot =>
    have hne : t.find? (p' ++ [name']) ≠ some t.root := fun he =>
      absurd (h.find?_injective he find?_nil) (by simp)
    rw [relink_eq, root_link, root_unlink, root_vacate, ← relink_eq, hitem, if_neg hne]
    exact exists_directory_iff.mp h.root_directory
  case hmem =>
    intro q m hq
    have hkeep : ∀ {r : Segments}, t.find? r = some m → r ≠ p' ++ [name'] →
        (t.relink n (p ++ [name]) (p' ++ [name']) d d').itemOf m ≠ none := by
      intro r hr hne
      rw [itemOf_relink_of_ne h hd hd' hfile hr hne, Ne, itemOf_eq_none_iff, not_not]
      exact h.mem_of_find? hr
    rcases find?_relink_cases h hd hd' hn hout hfile hq with ⟨s, -, hs⟩ | ⟨hnew, -, hs⟩
    · exact hkeep hs fun he => hout ⟨s, he⟩
    · exact hkeep hs fun he => hnew (he ▸ List.prefix_refl _)
  case hreached =>
    intro m hm
    obtain ⟨hkey, hne⟩ := hknown m hm
    obtain ⟨q, hq⟩ := h.reached m hkey
    exact reached_relink h hd hd' hn hout hfile hq hne
  case hinj =>
    intro q r m hq hr
    rcases find?_relink_cases h hd hd' hn hout hfile hq with ⟨s, rfl, hs⟩ | ⟨-, hold, hs⟩ <;>
      rcases find?_relink_cases h hd hd' hn hout hfile hr with ⟨s', rfl, hs'⟩ | ⟨-, hold', hs'⟩
    · rw [List.append_cancel_left (h.find?_injective hs hs')]
    · exact absurd ⟨s, h.find?_injective hs hs'⟩ hold'
    · exact absurd ⟨s', h.find?_injective hs' hs⟩ hold
    · exact h.find?_injective hs hs'
  case hnext =>
    intro m hm
    rw [relink_eq, next_link, next_unlink, next_vacate]
    exact h.below_next m (hknown m hm).1

end Relink

end TreeShell.Tree
