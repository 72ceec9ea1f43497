import TreeShell.Proofs.Tree.Outcomes

/-!
# Moves

What a move comes to, told by numbers, nodes and their count. A node that goes to another place
keeps its number and takes along all that is below it; a file that was there gives way and is gone;
all else stays what and where it was. Where nothing gave way, a move back leaves the tree as it was.
-/

namespace TreeShell

namespace Tree

variable {t t' t'' : Tree} {src dst : Segments}

/-! ## The number of nodes -/

@[simp] theorem size_link (t : Tree) (d : Nat) (name : String) (n : Nat) :
    (t.link d name n).nodes.size = t.nodes.size := by
  unfold link
  split
  · exact size_putChildren t d _
  · rfl

/-- Below a file there is nothing but the file. -/
theorem below_of_file {fuel n : Nat} {i : Inode} (hi : t.nodes.get? n = some i)
    (hdir : i.isDirectory = false) : t.below (fuel + 1) n = [n] := by
  rw [below, hi]
  dsimp only
  rw [Inode.children_of_file hdir]
  rfl

/-- A file that gives way is the only node that is gone. -/
theorem size_vacate (h : t.WellFormed)
    (hfile : ∀ item, t.item? dst = some item → item.isDirectory = false) :
    (t.vacate dst).nodes.size + (if t.item? dst = none then 0 else 1) = t.nodes.size := by
  unfold vacate
  split
  · next n hn =>
    obtain ⟨i, hi⟩ := exists_inode_of_mem (h.mem_of_find? hn)
    have hitem : t.item? dst = some i.item := by rw [item?_of_find? hn, itemOf_of_get? hi]
    have hdir : i.isDirectory = false := by rw [← Inode.isDirectory_item, hfile _ hitem]
    have hpos : 0 < t.nodes.size := by
      have hlt := h.length_lt_size hn
      omega
    obtain ⟨fuel, hfuel⟩ := Nat.exists_eq_add_one_of_ne_zero hpos.ne'
    have hbelow : t.below t.nodes.size n = [n] := by rw [hfuel, below_of_file hi hdir]
    rw [hitem, if_neg (Option.some_ne_none _), release, hbelow]
    exact OrderedMap.size_erase_of_mem (h.mem_of_find? hn)
  · next hnone => rw [h.item?_eq_none_iff.mpr hnone, if_pos rfl, Nat.add_zero]

/-! ## One subtree at another place -/

/-- A node goes from one place of a tree to another, with all that is below it. -/
structure Moved (t : Tree) (src dst : Segments) (t' : Tree) : Prop where
  /-- Nothing was at the new place, or a file. -/
  gives_way : ∀ item, t.item? dst = some item → item.isDirectory = false
  /-- What was at the old place and below it is found at the new place and below it: the same nodes,
  with all that is known about them. -/
  taken : ∀ s, t'.find? (dst ++ s) = t.find? (src ++ s) ∧ t'.item? (dst ++ s) = t.item? (src ++ s)
  /-- Nothing is left at the old place or below it. -/
  left : ∀ s, t'.find? (src ++ s) = none ∧ t'.item? (src ++ s) = none
  /-- At all other places are the nodes that were there, as they were. -/
  others : ∀ q, ¬ src <+: q → ¬ dst <+: q → t'.find? q = t.find? q ∧ t'.item? q = t.item? q
  /-- A file that gave way is gone, and no other node is gone or new. -/
  size : t'.nodes.size + (if t.item? dst = none then 0 else 1) = t.nodes.size

section Relink

variable (h : t.WellFormed) {p p' : Segments} {name name' : String} {d d' n : Nat}
  (hd : t.DirectoryAt p d) (hd' : t.DirectoryAt p' d') (hn : t.find? (p ++ [name]) = some n)
  (hout : ¬ p ++ [name] <+: p' ++ [name'])
  (hfile : ∀ item, t.item? (p' ++ [name']) = some item → item.isDirectory = false)

include hn hout hfile in
/-- A place whose file gives way, or that is free, has nothing below it. -/
theorem not_prefix_of_vacated : ¬ p' ++ [name'] <+: p ++ [name] := by
  rintro ⟨s, hs⟩
  cases s with
  | nil =>
    rw [List.append_nil] at hs
    exact hout (hs ▸ List.prefix_refl _)
  | cons a s =>
    rw [← hs, find?_append] at hn
    obtain ⟨r, hr, hw⟩ := Option.bind_eq_some_iff.mp hn
    rw [walk, child?_of_vacated hfile hr] at hw
    cases hw

include h hd hd' hn hout hfile in
theorem moved_relink :
    t.Moved (p ++ [name]) (p' ++ [name']) (t.relink n (p ++ [name]) (p' ++ [name']) d d') := by
  have hfind := find?_relink h hd hd' hn hout hfile
  have hitem := item?_relink h hd hd' hn hout hfile
  have hnot := not_prefix_of_vacated hn hout hfile
  refine ⟨hfile, fun s => ?_, fun s => ?_, fun q hq hq' => ?_, ?_⟩
  · rw [hfind, hitem, if_pos (List.prefix_append _ s), if_pos (List.prefix_append _ s),
      List.drop_left]
    exact ⟨rfl, rfl⟩
  · have hout' : ¬ p' ++ [name'] <+: p ++ [name] ++ s := by
      intro hle
      rcases List.prefix_or_prefix_of_prefix hle (List.prefix_append _ s) with hle | hle
      · exact hnot hle
      · exact hout hle
    rw [hfind, hitem, if_neg hout', if_neg hout', if_pos (List.prefix_append _ s),
      if_pos (List.prefix_append _ s)]
    exact ⟨rfl, rfl⟩
  · rw [hfind, hitem, if_neg hq', if_neg hq', if_neg hq, if_neg hq]
    exact ⟨rfl, rfl⟩
  · rw [relink_eq, size_link, size_unlink]
    exact size_vacate h hfile

end Relink

/-- A move that has something to do takes the node to its target. -/
theorem moved_of_move {cwd source destination : String} (h : t.WellFormed)
    (hmove : t.move cwd source destination = (.ok true, t')) :
    t.Moved (Path.resolve source cwd) (Edit.target cwd source destination t.item?) t' := by
  have hs := h.standing (Path.resolve source cwd)
  generalize hr : Path.resolve source cwd = place at hs
  cases hs with
  | root =>
    rw [move_root hr] at hmove
    cases hmove
  | orphan hno =>
    rw [move_of_lookup_none hr (lookup_of_find?_none (find?_of_orphan hno))] at hmove
    cases hmove
  | free hd hn =>
    rw [move_of_lookup_none hr (lookup_of_find?_none (find?_of_free hd hn))] at hmove
    cases hmove
  | @entry p name d n i hd hn hi =>
    obtain ⟨p', name', hdst⟩ := (List.eq_nil_or_concat' _).resolve_left
      (landing_ne_nil h (Path.resolve destination cwd) name)
    have ht := (target_eq cwd destination hr).trans hdst
    rw [ht]
    -- only a move between two directories changes anything
    have hbetween : ∀ (_ : ¬ p ++ [name] <+: p' ++ [name'])
        (_ : ∀ item, t.item? (p' ++ [name']) = some item → item.isDirectory = false)
        (_ : t.moveBetween n (p ++ [name]) (p' ++ [name']) source destination = (.ok true, t')),
        t.Moved (p ++ [name]) (p' ++ [name']) t' := by
      intro hout hfile hok
      by_cases hp' : ∃ d', t.DirectoryAt p' d'
      · obtain ⟨d', hd'⟩ := hp'
        rw [moveBetween_directory hd hd'] at hok
        cases hok
        exact moved_relink h hd hd' (find?_of_entry hd hn) hout hfile
      · rw [moveBetween_orphan (not_exists.mp hp')] at hok
        cases hok
    rw [move_entry hr hdst hd hn hi] at hmove
    split at hmove
    · cases hmove
    split at hmove
    · cases hmove
    next hout =>
    split at hmove
    · next hl =>
      have hnone := lookup_eq_none_iff.mp hl
      refine hbetween hout (fun item hitem => ?_) hmove
      rw [hnone] at hitem
      cases hitem
    · next m j hl =>
      split at hmove
      · cases hmove
      split at hmove
      · cases hmove
      next hj _ =>
      refine hbetween hout (fun item hitem => ?_) hmove
      rw [item?_of_lookup hl, Option.some.injEq] at hitem
      rw [← hitem, Inode.isDirectory_item]
      exact eq_false_of_ne_true hj

/-! ## There and back -/

section Back

variable (h : t.WellFormed) (hm : t.Moved src dst t') (hfree : t.item? dst = none)

include h hm hfree

/-- What was moved to a free place, and then back, is again where it was, and so is all else. -/
theorem Moved.undone (hback : t'.Moved dst src t'') (q : Segments) :
    t''.find? q = t.find? q ∧ t''.item? q = t.item? q := by
  have hnone : t.find? dst = none := h.item?_eq_none_iff.mp hfree
  by_cases hsrc : src <+: q
  · obtain ⟨s, rfl⟩ := hsrc
    obtain ⟨hfind, hitem⟩ := hback.taken s
    obtain ⟨hfind', hitem'⟩ := hm.taken s
    exact ⟨hfind.trans hfind', hitem.trans hitem'⟩
  by_cases hdst : dst <+: q
  · obtain ⟨s, rfl⟩ := hdst
    obtain ⟨hfind, hitem⟩ := hback.left s
    have hbelow : t.find? (dst ++ s) = none := by rw [find?_append, hnone, Option.bind_none]
    exact ⟨hfind.trans hbelow.symm, hitem.trans (h.item?_eq_none_iff.mpr hbelow).symm⟩
  · obtain ⟨hfind, hitem⟩ := hback.others q hdst hsrc
    obtain ⟨hfind', hitem'⟩ := hm.others q hsrc hdst
    exact ⟨hfind.trans hfind', hitem.trans hitem'⟩

/-- What was moved to a free place can be moved back. -/
theorem Moved.permitted_back (hsrc : t.item? src ≠ none) (hne : src ≠ [])
    {cwd source destination : String} (hs : Path.resolve source cwd = dst)
    (hd : Path.resolve destination cwd = src) :
    Edit.target cwd source destination t'.item? = src ∧
      (Edit.move source destination).Permitted cwd t'.item? := by
  obtain ⟨p, name, rfl⟩ := (List.eq_nil_or_concat' src).resolve_left hne
  have hfound : t.find? (p ++ [name]) ≠ none := mt h.item?_eq_none_iff.mpr hsrc
  -- the free place is not the root, and nothing is below it
  have hroot : dst ≠ [] := by
    rintro rfl
    obtain ⟨i, hi⟩ := lookup_root h
    rw [item?_of_lookup hi] at hfree
    cases hfree
  have hdst : ¬ dst <+: p ++ [name] := by
    rintro ⟨s, hs⟩
    rw [← hs, find?_append, h.item?_eq_none_iff.mp hfree] at hfound
    exact hfound rfl
  have hleft : t'.item? (p ++ [name]) = none := by
    have hleft := (hm.left []).2
    rwa [List.append_nil] at hleft
  have htaken : t'.item? dst ≠ none := by
    have htaken := (hm.taken []).2
    rw [List.append_nil, List.append_nil] at htaken
    rwa [htaken]
  have htarget : Edit.target cwd source destination t'.item? = p ++ [name] := by
    rw [Edit.target, hd, PathMap.landing, hleft]
  have hparent : t'.item?.HasParent (p ++ [name]) := by
    obtain ⟨n, hn⟩ := Option.ne_none_iff_exists'.mp hfound
    obtain ⟨item, hitem, hdir⟩ := hasDirectory_iff.mpr (directoryAt_of_find? hn)
    have hpsrc : ¬ p ++ [name] <+: p := by
      intro hle
      have hlength := hle.length_le
      rw [List.length_append, List.length_singleton] at hlength
      omega
    have hpdst : ¬ dst <+: p := fun hle => hdst (hle.trans (List.prefix_append p [name]))
    exact PathMap.hasParent_concat_iff.mpr ⟨item, by rw [(hm.others p hpsrc hpdst).2, hitem], hdir⟩
  refine ⟨htarget, ?_⟩
  rw [Edit.Permitted, hs, htarget]
  exact ⟨hroot, htaken, Or.inr ⟨hdst, hparent, PathMap.not_hasDirectory_of_none hleft,
    fun _ => hleft⟩⟩

end Back

end Tree

end TreeShell
