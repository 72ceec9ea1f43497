import TreeShell.Proofs.Tree.Edits

/-!
# What edits come to

An edit of a well-formed tree does what it does to the plain map, and keeps the tree well-formed. It
is refused if and only if the plain map does not permit it, with one of the refusals that it can
meet with; then, and when it has nothing to do, the tree is left as it was.
-/

namespace TreeShell.Tree

/-- What may come of an edit of a tree: a refusal that leaves the tree as it was, nothing new to
save and the same tree, or another well-formed tree with the map that the edit should leave. -/
inductive Outcome (now : Int) (cwd : String) (t : Tree) (e : Edit) : Change → Prop where
  | refused {r : PathError} (hp : ¬ e.Permitted cwd t.item?) (hr : e.Refusal cwd t.item? r) :
    Outcome now cwd t e (.error r, t)
  | unchanged (hp : e.Permitted cwd t.item?) (hi : e.Idle cwd t.item?) :
    Outcome now cwd t e (.ok false, t)
  | changed {t' : Tree} (hp : e.Permitted cwd t.item?) (hi : ¬ e.Idle cwd t.item?)
    (hw : t'.WellFormed) (hm : ∀ q, t'.item? q = e.effect now cwd t.item? q) :
    Outcome now cwd t e (.ok true, t')

variable {t : Tree} (now : Int) (cwd : String)

section Directories

variable {p : Segments} {name : String} {d : Nat}

/-- A place without a directory above it has no parent in the map. -/
theorem not_hasParent_of_orphan (hp : ∀ d, ¬ t.DirectoryAt p d) :
    ¬ t.item?.HasParent (p ++ [name]) := by
  rw [hasParent_iff]
  exact not_exists.mpr hp

/-- A place with a directory above it has a parent in the map. -/
theorem hasParent_of_directory (hd : t.DirectoryAt p d) : t.item?.HasParent (p ++ [name]) :=
  hasParent_iff.mpr ⟨d, hd⟩

end Directories

/-- A write is refused at the root, at an orphan, at a directory, and where the contents cannot be
joined. -/
theorem outcome_write (h : t.WellFormed) (path : String) (content : Content) (append : Bool) :
    Outcome now cwd t (.write path content append) (t.write now cwd path content append) := by
  have hs := h.standing (Path.resolve path cwd)
  generalize hr : Path.resolve path cwd = place at hs
  cases hs with
  | root =>
    rw [write_root hr]
    refine .refused (fun hp => ?_) (Or.inl rfl)
    rw [Edit.Permitted, hr] at hp
    exact PathMap.not_hasParent_nil hp.1
  | orphan hno =>
    rw [write_orphan hr hno]
    refine .refused (fun hp => ?_) (Or.inr (Or.inl rfl))
    rw [Edit.Permitted, hr] at hp
    exact not_hasParent_of_orphan hno hp.1
  | @free p name d hd hn =>
    have hnone : t.item? (p ++ [name]) = none := item?_of_free hd hn (List.prefix_refl _)
    have hwritten : PathMap.written content append (t.item? (p ++ [name])) = .ok content := by
      rw [hnone, PathMap.written_none]
    rw [write_free hr hd hn]
    refine .changed ?_ id (wellFormed_add h hd hn rfl) fun q => ?_
    · rw [Edit.Permitted, hr]
      exact ⟨hasParent_of_directory hd, PathMap.not_hasDirectory_of_none hnone, _, hwritten⟩
    · rw [item?_add h hd hn rfl, Edit.effect, hr, PathMap.write, hwritten, hnone]
      rfl
  | @entry p name d n i hd hn hi =>
    have hitem := item?_of_entry hd hn hi
    have hdirectory := PathMap.hasDirectory_iff_of_eq hitem
    cases hbody : i.body with
    | directory children =>
      have hdir : i.isDirectory = true := by rw [Inode.isDirectory, hbody]
      rw [write_directory hr hd hn hi hdir]
      refine .refused (fun hp => ?_) (Or.inl rfl)
      rw [Edit.Permitted, hr, hdirectory, Inode.isDirectory_item, hdir] at hp
      exact hp.2.1 rfl
    | file old =>
      have hold : i.item = ⟨i.attributes, some old⟩ := by rw [Inode.item, hbody]
      have hwritten : PathMap.written content append (t.item? (p ++ [name])) =
          if append then old.join content else .ok content := by
        rw [hitem, hold, PathMap.written]
      cases hnew : (if append then old.join content else .ok content) with
      | error e =>
        rw [write_file_error hr hd hn hi hbody hnew]
        refine .refused (fun hp => ?_) (Or.inr (Or.inr ⟨e, rfl⟩))
        rw [Edit.Permitted, hr, hwritten, hnew] at hp
        obtain ⟨new, hw⟩ := hp.2.2
        cases hw
      | ok new =>
        have hleaf : ({ i.modified now with body := .file new } : Inode).children = i.children := by
          rw [Inode.children, Inode.children, hbody]
        rw [write_file_ok hr hd hn hi hbody hnew]
        refine .changed ?_ id (wellFormed_put h hi hleaf ?_) fun q => ?_
        · rw [Edit.Permitted, hr, hdirectory, hwritten, hnew, hold]
          exact ⟨hasParent_of_directory hd, by simp [Item.isDirectory], new, rfl⟩
        · rw [Inode.isDirectory, Inode.isDirectory, hbody]
        · rw [item?_put h hi hleaf (find?_of_entry hd hn), Edit.effect, hr, PathMap.write, hwritten,
            hnew, hitem, hold]
          rfl

/-- A directory is made at a free place, and refused anywhere else. -/
theorem outcome_createDirectory (h : t.WellFormed) (path : String) :
    Outcome now cwd t (.createDirectory path) (t.createDirectory now cwd path) := by
  have hs := h.standing (Path.resolve path cwd)
  generalize hr : Path.resolve path cwd = place at hs
  cases hs with
  | root =>
    obtain ⟨i, hi⟩ := lookup_root h
    rw [createDirectory_of_lookup (hr ▸ hi)]
    refine .refused (fun hp => ?_) (Or.inl rfl)
    rw [Edit.Permitted, hr] at hp
    exact PathMap.not_hasParent_nil hp.2
  | orphan hno =>
    rw [createDirectory_orphan hr hno]
    refine .refused (fun hp => ?_) (Or.inr rfl)
    rw [Edit.Permitted, hr] at hp
    exact not_hasParent_of_orphan hno hp.2
  | free hd hn =>
    rw [createDirectory_free hr hd hn]
    refine .changed ?_ id (wellFormed_add h hd hn rfl) fun q => ?_
    · rw [Edit.Permitted, hr]
      exact ⟨item?_of_free hd hn (List.prefix_refl _), hasParent_of_directory hd⟩
    · rw [item?_add h hd hn rfl, Edit.effect, hr]
      rfl
  | entry hd hn hi =>
    rw [createDirectory_of_lookup (hr ▸ lookup_of_entry hd hn hi)]
    refine .refused (fun hp => ?_) (Or.inl rfl)
    rw [Edit.Permitted, hr, item?_of_entry hd hn hi] at hp
    cases hp.1

/-- Directories are refused for a file on the way; if none is missing, there is nothing to do. -/
theorem outcome_makeDirectories (h : t.WellFormed) (path : String) :
    Outcome now cwd t (.makeDirectories path) (t.makeDirectories now cwd path) := by
  have hroot := h.directoryAt_root
  rw [makeDirectories]
  generalize hr : Path.resolve path cwd = place
  by_cases hfile : ∃ q, q <+: [] ++ place ∧ t.item?.HasFile q
  · rw [makeDirectoriesFrom_error h now path false hroot hfile]
    refine .refused (fun hp => ?_) rfl
    obtain ⟨q, hq, hf⟩ := hfile
    rw [Edit.Permitted, hr] at hp
    exact hp q hq hf
  · have hfree : ∀ q, q <+: [] ++ place → ¬ t.item?.HasFile q :=
      fun q hq hf => hfile ⟨q, hq, hf⟩
    have hp : (Edit.makeDirectories path).Permitted cwd t.item? := by
      rw [Edit.Permitted, hr]
      exact hfree
    obtain ⟨b, t', he, hwf, hb, hsame, hmap⟩ :=
      makeDirectoriesFrom_ok h now path false hroot hfree
    rw [he]
    cases b with
    | false =>
      rw [hsame rfl]
      refine .unchanged hp ?_
      rw [Edit.Idle, hr]
      exact fun q hq hn => absurd (hb.mpr (Or.inr ⟨q, hq, hn⟩)) (by simp)
    | true =>
      refine .changed hp ?_ hwf fun q => ?_
      · obtain ⟨q, hq, hn⟩ := (hb.mp rfl).resolve_left (by simp)
        rw [Edit.Idle, hr]
        exact fun hall => hall q hq hn
      · rw [hmap, Edit.effect, hr]
        rfl

/-- To touch what is there is never refused; elsewhere it is to write an empty file. -/
theorem outcome_touch (h : t.WellFormed) (path : String) :
    Outcome now cwd t (.touch path) (t.touch now cwd path) := by
  have hput : ∀ {n i}, t.lookup (Path.resolve path cwd) = some (n, i) →
      Outcome now cwd t (.touch path) (t.touch now cwd path) := by
    intro n i hl
    obtain ⟨hf, hi⟩ := lookup_eq_some_iff.mp hl
    have hitem := item?_of_lookup hl
    have hleaf : (i.modified now).children = i.children := rfl
    have hmodified : (i.modified now).item = i.item.modified now := by
      obtain ⟨attributes, body⟩ := i
      cases body <;> rfl
    rw [touch_of_lookup hl]
    refine .changed ?_ id (wellFormed_put h hi hleaf rfl) fun q => ?_
    · rw [Edit.Permitted, hitem]
      exact Or.inl (by simp)
    · rw [item?_put h hi hleaf hf, hmodified, Edit.effect, PathMap.touch, hitem]
      rfl
  have hs := h.standing (Path.resolve path cwd)
  generalize hr : Path.resolve path cwd = place at hs
  cases hs with
  | root =>
    obtain ⟨i, hi⟩ := lookup_root h
    exact hput (hr ▸ hi)
  | orphan hno =>
    rw [touch_of_lookup_none (hr ▸ lookup_of_find?_none (find?_of_orphan hno)),
      write_orphan hr hno]
    refine .refused (fun hp => ?_) rfl
    rw [Edit.Permitted, hr, item?_of_orphan hno] at hp
    exact hp.elim (fun hne => hne rfl) (not_hasParent_of_orphan hno)
  | free hd hn =>
    rw [touch_of_lookup_none (hr ▸ lookup_of_find?_none (find?_of_free hd hn)),
      write_free hr hd hn]
    refine .changed ?_ id (wellFormed_add h hd hn rfl) fun q => ?_
    · rw [Edit.Permitted, hr]
      exact Or.inr (hasParent_of_directory hd)
    · rw [item?_add h hd hn rfl, Edit.effect, hr, PathMap.touch,
        item?_of_free hd hn (List.prefix_refl _)]
      rfl
  | entry hd hn hi => exact hput (hr ▸ lookup_of_entry hd hn hi)

/-- A deletion is refused at the root, where nothing is, and for entries that are not meant. -/
theorem outcome_delete (h : t.WellFormed) (path : String) (recursive : Bool) :
    Outcome now cwd t (.delete path recursive) (t.delete cwd path recursive) := by
  have hs := h.standing (Path.resolve path cwd)
  generalize hr : Path.resolve path cwd = place at hs
  cases hs with
  | root =>
    rw [delete_root hr]
    refine .refused (fun hp => ?_) (Or.inl rfl)
    rw [Edit.Permitted, hr] at hp
    exact hp.1 rfl
  | orphan hno =>
    rw [delete_of_lookup_none hr (lookup_of_find?_none (find?_of_orphan hno))]
    refine .refused (fun hp => ?_) (Or.inr (Or.inl rfl))
    rw [Edit.Permitted, hr] at hp
    exact hp.2.1 (item?_of_orphan hno)
  | free hd hn =>
    rw [delete_of_lookup_none hr (lookup_of_find?_none (find?_of_free hd hn))]
    refine .refused (fun hp => ?_) (Or.inr (Or.inl rfl))
    rw [Edit.Permitted, hr] at hp
    exact hp.2.1 (item?_of_free hd hn (List.prefix_refl _))
  | @entry p name d n i hd hn hi =>
    have hempty := isEmpty_children_iff h hd hn hi
    rw [delete_entry hr hd hn hi]
    split
    · next hfull =>
      rw [Bool.and_eq_true, Bool.not_eq_true', Bool.not_eq_true'] at hfull
      refine .refused (fun hp => ?_) (Or.inr (Or.inr rfl))
      rw [Edit.Permitted, hr] at hp
      rcases hp.2.2 with hrec | hbare
      · rw [hfull.2] at hrec
        cases hrec
      · rw [hempty.mpr hbare] at hfull
        cases hfull.1
    · next hbare =>
      refine .changed ?_ id (wellFormed_remove h hd hn) fun q => ?_
      · rw [Edit.Permitted, hr, item?_of_entry hd hn hi]
        refine ⟨by simp, by simp, ?_⟩
        cases hrec : recursive with
        | true => exact Or.inl rfl
        | false => exact Or.inr (hempty.mp (by simpa [hrec] using hbare))
      · rw [item?_remove h hd hn, Edit.effect, hr]
        rfl

section Move

variable {source destination : String} {p p' : Segments} {name name' : String} {d n : Nat}
  {i : Inode}

/-- The place that a move leads to by the map is where the tree lets it land. -/
theorem target_eq (destination : String) (hr : Path.resolve source cwd = p ++ [name]) :
    Edit.target cwd source destination t.item? =
      t.landing (Path.resolve destination cwd) name := by
  rw [Edit.target, hr, nameOf_concat, landing_item?]

/-- A move to another place that is free or a file's is made if there is a directory above it. -/
theorem outcome_moveBetween (h : t.WellFormed) (hr : Path.resolve source cwd = p ++ [name])
    (ht : Edit.target cwd source destination t.item? = p' ++ [name'])
    (hd : t.DirectoryAt p d) (hn : t.child? d name = some n) (hi : t.nodes.get? n = some i)
    (hne : p' ++ [name'] ≠ p ++ [name]) (hout : ¬ p ++ [name] <+: p' ++ [name'])
    (hfile : ∀ item, t.item? (p' ++ [name']) = some item → item.isDirectory = false)
    (hfree : i.isDirectory = true → t.item? (p' ++ [name']) = none) :
    Outcome now cwd t (.move source destination)
      (t.moveBetween n (p ++ [name]) (p' ++ [name']) source destination) := by
  have hitem := item?_of_entry hd hn hi
  by_cases hp' : ∃ d', t.DirectoryAt p' d'
  · obtain ⟨d', hd'⟩ := hp'
    have hnot : ¬ t.item?.HasDirectory (p' ++ [name']) := by
      rintro ⟨item, he, hdir⟩
      rw [hfile item he] at hdir
      cases hdir
    have hfound := find?_of_entry hd hn
    rw [moveBetween_directory hd hd']
    refine .changed ?_ ?_ (wellFormed_relink h hd hd' hfound hout hfile) fun q => ?_
    · rw [Edit.Permitted, hr, ht, PathMap.hasDirectory_iff_of_eq hitem, hitem,
        Inode.isDirectory_item]
      exact ⟨by simp, by simp, Or.inr ⟨hout, hasParent_of_directory hd', hnot, hfree⟩⟩
    · rw [Edit.Idle, hr, ht]
      exact hne
    · rw [item?_relink h hd hd' hfound hout hfile, Edit.effect, hr, ht, if_neg hne]
      rfl
  · rw [moveBetween_orphan (not_exists.mp hp')]
    refine .refused (fun hp => ?_) ?_
    · rw [Edit.Permitted, hr, ht] at hp
      rcases hp.2.2 with hsame | hother
      · exact hne hsame
      · exact not_hasParent_of_orphan (not_exists.mp hp') hother.2.1
    · exact Or.inr (Or.inr (Or.inr (Or.inr (Or.inr rfl))))

/-- A move of an entry onto itself has nothing to do; it is refused into itself, onto a directory,
for a directory onto a file, and where there is no directory above. -/
theorem outcome_move_entry (h : t.WellFormed) (hr : Path.resolve source cwd = p ++ [name])
    (hd : t.DirectoryAt p d) (hn : t.child? d name = some n) (hi : t.nodes.get? n = some i) :
    Outcome now cwd t (.move source destination) (t.move cwd source destination) := by
  obtain ⟨p', name', hdst⟩ := (List.eq_nil_or_concat' _).resolve_left
    (landing_ne_nil h (Path.resolve destination cwd) name)
  have ht := (target_eq cwd destination hr).trans hdst
  have hitem := item?_of_entry hd hn hi
  rw [move_entry hr hdst hd hn hi]
  by_cases hsame : p' ++ [name'] = p ++ [name]
  · rw [if_pos hsame]
    refine .unchanged ?_ ?_
    · rw [Edit.Permitted, hr, ht, hitem]
      exact ⟨by simp, by simp, Or.inl hsame⟩
    · rw [Edit.Idle, hr, ht, hsame]
  rw [if_neg hsame]
  by_cases hout : p ++ [name] <+: p' ++ [name']
  · rw [if_pos hout]
    refine .refused (fun hp => ?_) (Or.inr (Or.inr (Or.inl rfl)))
    rw [Edit.Permitted, hr, ht] at hp
    exact hp.2.2.elim hsame fun hother => hother.1 hout
  rw [if_neg hout]
  cases hl : t.lookup (p' ++ [name']) with
  | none =>
    have hnone := lookup_eq_none_iff.mp hl
    refine outcome_moveBetween now cwd h hr ht hd hn hi hsame hout (fun item he => ?_)
      fun _ => hnone
    rw [hnone] at he
    cases he
  | some e =>
    obtain ⟨m, j⟩ := e
    have hitem' := item?_of_lookup hl
    dsimp only
    cases hj : j.isDirectory with
    | true =>
      rw [if_pos rfl, ← ht]
      refine .refused (fun hp => ?_) (Or.inr (Or.inr (Or.inr (Or.inl rfl))))
      rw [Edit.Permitted, hr, ht, PathMap.hasDirectory_iff_of_eq hitem', Inode.isDirectory_item,
        hj] at hp
      exact hp.2.2.elim hsame fun hother => hother.2.2.1 rfl
    | false =>
      rw [if_neg (by simp)]
      cases hdir : i.isDirectory with
      | true =>
        rw [if_pos rfl, ← ht]
        refine .refused (fun hp => ?_) (Or.inr (Or.inr (Or.inr (Or.inr (Or.inl rfl)))))
        rw [Edit.Permitted, hr, ht, PathMap.hasDirectory_iff_of_eq hitem, Inode.isDirectory_item,
          hdir, hitem'] at hp
        rcases hp.2.2 with hp | hp
        · exact hsame hp
        · cases hp.2.2.2 rfl
      | false =>
        rw [if_neg (by simp)]
        refine outcome_moveBetween now cwd h hr ht hd hn hi hsame hout (fun item he => ?_)
          fun htrue => ?_
        · rw [hitem', Option.some.injEq] at he
          rw [← he, Inode.isDirectory_item, hj]
        · rw [hdir] at htrue
          cases htrue

end Move

/-- A move is refused for the root and for what is not there; otherwise it moves an entry. -/
theorem outcome_move (h : t.WellFormed) (source destination : String) :
    Outcome now cwd t (.move source destination) (t.move cwd source destination) := by
  have hs := h.standing (Path.resolve source cwd)
  generalize hr : Path.resolve source cwd = place at hs
  cases hs with
  | root =>
    rw [move_root hr]
    refine .refused (fun hp => ?_) (Or.inl rfl)
    rw [Edit.Permitted, hr] at hp
    exact hp.1 rfl
  | orphan hno =>
    rw [move_of_lookup_none hr (lookup_of_find?_none (find?_of_orphan hno))]
    refine .refused (fun hp => ?_) (Or.inr (Or.inl rfl))
    rw [Edit.Permitted, hr] at hp
    exact hp.2.1 (item?_of_orphan hno)
  | free hd hn =>
    rw [move_of_lookup_none hr (lookup_of_find?_none (find?_of_free hd hn))]
    refine .refused (fun hp => ?_) (Or.inr (Or.inl rfl))
    rw [Edit.Permitted, hr] at hp
    exact hp.2.1 (item?_of_free hd hn (List.prefix_refl _))
  | entry hd hn hi => exact outcome_move_entry now cwd h hr hd hn hi

/-- Every edit of a well-formed tree has one of the outcomes. -/
theorem outcome_perform (h : t.WellFormed) (e : Edit) :
    Outcome now cwd t e (e.perform now cwd t) := by
  cases e with
  | write path content append => exact outcome_write now cwd h path content append
  | createDirectory path => exact outcome_createDirectory now cwd h path
  | makeDirectories path => exact outcome_makeDirectories now cwd h path
  | touch path => exact outcome_touch now cwd h path
  | delete path recursive => exact outcome_delete now cwd h path recursive
  | move source destination => exact outcome_move now cwd h source destination

/-- A well-formed tree stays so, whatever is asked for and whether it is refused or not. -/
theorem wellFormed_perform (h : t.WellFormed) (e : Edit) :
    (e.perform now cwd t).2.WellFormed := by
  have ho := outcome_perform now cwd h e
  generalize e.perform now cwd t = change at ho
  cases ho with
  | refused hp hr => exact h
  | unchanged hp hi => exact h
  | changed hp hi hw hm => exact hw

end TreeShell.Tree
