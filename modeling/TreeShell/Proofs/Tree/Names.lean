import TreeShell.Proofs.Path
import TreeShell.Proofs.Tree.Outcomes

/-!
# Names that can be addressed

A path leads to proper segments only, so an entry can be reached from the root if its name and the
names on the way to it are proper. A working directory is not folded like a path: a dot, or two of
them, stays a segment of the place that it stands for. What an edit puts into the tree has the names
that its paths lead to, so a tree of proper names stays one just as long as what is made has a
proper place.
-/

namespace TreeShell

namespace Path

variable {cwd : String} {p : Segments}

/-- A working directory that means the same as a working directory and as a path. -/
def IsStraight (cwd : String) : Prop := base cwd = resolve cwd "/"

instance (cwd : String) : Decidable (IsStraight cwd) :=
  inferInstanceAs (Decidable (base cwd = resolve cwd "/"))

/-- Empty parts of a path lead nowhere. -/
theorem foldl_step_filter (parts : List String) (p : Segments) :
    (parts.filter (· ≠ "")).foldl step p = parts.foldl step p := by
  induction parts generalizing p with
  | nil => rfl
  | cons part parts ih =>
    by_cases he : part = ""
    · have hstay : step p part = p := if_pos (Or.inl he)
      rw [List.filter_cons_of_neg (by simpa using he), List.foldl_cons, hstay, ih]
    · rw [List.filter_cons_of_pos (by simpa using he), List.foldl_cons, List.foldl_cons, ih]

/-- A working directory is canonical just if all its names are proper. -/
theorem isStraight_iff : IsStraight cwd ↔ ∀ s ∈ base cwd, IsProper s := by
  constructor
  · intro h s hs
    rw [IsStraight] at h
    exact proper_resolve_root cwd s (h ▸ hs)
  · intro h
    have hfold := foldl_step_proper h []
    rw [List.nil_append, base, foldl_step_filter, ← resolve_root] at hfold
    exact hfold.symm

/-- From a straight working directory every path leads to proper segments. -/
theorem IsStraight.proper_resolve (h : IsStraight cwd) (path : String) :
    ∀ s ∈ resolve path cwd, IsProper s :=
  Path.proper_resolve (Or.inr (isStraight_iff.mp h))

/-- A proper name leads from a working directory to the entry of that name. -/
theorem resolve_of_isProper {name : String} (h : IsProper name) (cwd : String) :
    resolve name cwd = base cwd ++ [name] := by
  have hstart : ¬ Text.hasStart name "/" = true := by
    rw [Text.hasStart_iff]
    rintro ⟨rest, hrest⟩
    exact h.no_slash (hrest ▸ List.mem_cons_self)
  rw [resolve, parts_of_isProper h, if_neg hstart, List.foldl_cons, List.foldl_nil, step_proper h]

/-- A path leads to a place, from the root, if and only if the place has proper segments. -/
theorem exists_resolve_iff : (∃ path, resolve path "/" = p) ↔ ∀ s ∈ p, IsProper s := by
  constructor
  · rintro ⟨path, rfl⟩
    exact proper_resolve_root path
  · exact fun hp => ⟨format p, resolve_format hp "/"⟩

end Path

/-! ## Maps with proper places -/

namespace PathMap

variable {m : PathMap} {p p' : Segments} {item : Item}

/-- Whatever is in the map is at a place of proper segments. -/
def Proper (m : PathMap) : Prop := ∀ p, m p ≠ none → ∀ s ∈ p, Path.IsProper s

/-- Names stay proper when something is put at a path just if those of the path are. -/
theorem Proper.put_iff (h : m.Proper) :
    (m.put p item).Proper ↔ ∀ s ∈ p, Path.IsProper s := by
  constructor
  · intro hput
    refine hput p ?_
    rw [put, if_pos rfl]
    exact Option.some_ne_none item
  · intro hp q hq
    by_cases he : q = p
    · exact he ▸ hp
    · rw [put, if_neg he] at hq
      exact h q hq

/-- Names stay proper when a way is filled just if those of the way are. -/
theorem Proper.fill_iff (h : m.Proper) :
    (m.fill p item).Proper ↔ ∀ s ∈ p, Path.IsProper s := by
  constructor
  · intro hfill
    refine hfill p ?_
    by_cases hp : m p = none
    · rw [fill, if_pos ⟨List.prefix_refl p, hp⟩]
      exact Option.some_ne_none item
    · rw [fill, if_neg fun hnone => hp hnone.2]
      exact hp
  · intro hp q hq
    by_cases he : q <+: p ∧ m q = none
    · exact fun s hs => hp s (he.1.subset hs)
    · rw [fill, if_neg he] at hq
      exact h q hq

/-- Names stay proper when something is taken away. -/
theorem Proper.prune (h : m.Proper) (p : Segments) : (m.prune p).Proper := by
  intro q hq
  by_cases he : p <+: q
  · rw [PathMap.prune, if_pos he] at hq
    exact absurd rfl hq
  · rw [PathMap.prune, if_neg he] at hq
    exact h q hq

/-- Names stay proper in a move just if those of its destination are. -/
theorem Proper.relocate_iff (h : m.Proper) (hp : m p ≠ none) :
    (m.relocate p p').Proper ↔ ∀ s ∈ p', Path.IsProper s := by
  constructor
  · intro hmoved
    refine hmoved p' ?_
    rw [relocate, if_pos (List.prefix_refl p'), List.drop_length, List.append_nil]
    exact hp
  · intro hp' q hq s hs
    by_cases hdst : p' <+: q
    · rw [relocate, if_pos hdst] at hq
      obtain ⟨r, rfl⟩ := hdst
      rw [List.drop_left] at hq
      rcases List.mem_append.mp hs with hs | hs
      · exact hp' s hs
      · exact h _ hq s (List.mem_append_right p hs)
    · rw [relocate, if_neg hdst] at hq
      by_cases hsrc : p <+: q
      · rw [if_pos hsrc] at hq
        exact absurd rfl hq
      · rw [if_neg hsrc] at hq
        exact h q hq s hs

end PathMap

/-! ## Edits that make proper places -/

namespace Edit

/-- The place where an edit puts something, and the root for an edit that does not. -/
def made (cwd : String) (m : PathMap) : Edit → Segments
  | .write path _ _ => Path.resolve path cwd
  | .createDirectory path => Path.resolve path cwd
  | .makeDirectories path => Path.resolve path cwd
  | .touch path => Path.resolve path cwd
  | .delete _ _ => []
  | .move source destination => target cwd source destination m

/-- An edit of a map with proper places leaves such a map just if it makes a proper place. -/
theorem proper_effect_iff {now : Int} {cwd : String} {m : PathMap} {e : Edit} (h : m.Proper)
    (hp : e.Permitted cwd m) :
    (e.effect now cwd m).Proper ↔ ∀ s ∈ e.made cwd m, Path.IsProper s := by
  cases e with
  | write path content append =>
    obtain ⟨-, -, new, hnew⟩ := hp
    rw [effect, PathMap.write, hnew]
    exact h.put_iff
  | createDirectory path => exact h.put_iff
  | makeDirectories path => exact h.fill_iff
  | touch path =>
    rw [effect, PathMap.touch]
    cases m (Path.resolve path cwd) with
    | none => exact h.put_iff
    | some item => exact h.put_iff
  | delete path recursive =>
    exact iff_of_true (h.prune _) fun s hs => absurd hs List.not_mem_nil
  | move source destination =>
    rw [effect, made]
    by_cases he : target cwd source destination m = Path.resolve source cwd
    · rw [if_pos he, he]
      exact iff_of_true h (h _ hp.2.1)
    · rw [if_neg he]
      exact h.relocate_iff hp.2.1

/-- From a straight working directory an edit makes proper places only, if there were such only. -/
theorem proper_made {cwd : String} {m : PathMap} (h : m.Proper) (hcwd : Path.IsStraight cwd)
    {e : Edit} (hp : e.Permitted cwd m) : ∀ s ∈ e.made cwd m, Path.IsProper s := by
  cases e with
  | write path content append => exact hcwd.proper_resolve path
  | createDirectory path => exact hcwd.proper_resolve path
  | makeDirectories path => exact hcwd.proper_resolve path
  | touch path => exact hcwd.proper_resolve path
  | delete path recursive => exact fun s hs => absurd hs List.not_mem_nil
  | move source destination =>
    obtain ⟨hne, hsrc, -⟩ := hp
    intro s hs
    -- a target has the segments of the destination, and maybe the last one of the source
    have hcases : s ∈ Path.resolve destination cwd ∨ s ∈ Path.resolve source cwd := by
      obtain ⟨p, name, hname⟩ := (List.eq_nil_or_concat' _).resolve_left hne
      have hlast : Path.nameOf (Path.resolve source cwd) = name := by
        rw [Path.nameOf, hname, List.getLast?_concat, Option.getD_some]
      rw [made, target, PathMap.landing, hlast] at hs
      split at hs
      · split at hs
        · rcases List.mem_append.mp hs with hs | hs
          · exact Or.inl hs
          · rw [hname]
            exact Or.inr (List.mem_append_right p hs)
        · exact Or.inl hs
      · exact Or.inl hs
    rcases hcases with hs | hs
    · exact hcwd.proper_resolve destination s hs
    · exact h _ hsrc s hs

end Edit

/-! ## Trees with proper names -/

namespace Tree

variable {t : Tree}

/-- Every entry of every directory has a proper name. -/
def Addressable (t : Tree) : Prop := ∀ n name, t.child? n name ≠ none → Path.IsProper name

/-- What a directory lists can be reached, if the tree has proper names. -/
theorem Addressable.isProper (ha : t.Addressable) {place : Segments} {name : String}
    (h : t.find? (place ++ [name]) ≠ none) : Path.IsProper name := by
  obtain ⟨n, hn⟩ := Option.ne_none_iff_exists'.mp h
  obtain ⟨d, -, hchild⟩ := find?_concat_eq_some hn
  exact ha d name (Option.ne_none_iff_exists'.mpr ⟨n, hchild⟩)

/-- Whatever is found in a tree of proper names is at a place of such. -/
theorem Addressable.proper_of_find? (ha : t.Addressable) {p : Segments} (h : t.find? p ≠ none) :
    ∀ s ∈ p, Path.IsProper s := by
  induction p using List.reverseRecOn with
  | nil => exact fun s hs => absurd hs List.not_mem_nil
  | append_singleton p name ih =>
    obtain ⟨n, hn⟩ := Option.ne_none_iff_exists'.mp h
    obtain ⟨d, hd, -⟩ := find?_concat_eq_some hn
    intro s hs
    rcases List.mem_append.mp hs with hs | hs
    · exact ih (Option.ne_none_iff_exists'.mpr ⟨d, hd⟩) s hs
    · rw [List.mem_singleton.mp hs]
      exact ha.isProper h

/-- Each entry can be addressed just if all names are proper. -/
theorem addressable_iff (h : t.WellFormed) : t.Addressable ↔ t.item?.Proper := by
  constructor
  · exact fun ha p hp => ha.proper_of_find? (mt h.item?_eq_none_iff.mpr hp)
  · intro hp d name hname
    obtain ⟨n, hn⟩ := Option.ne_none_iff_exists'.mp hname
    obtain ⟨p, hd⟩ := h.reached d (mem_of_child? hn)
    have hfound : t.find? (p ++ [name]) = some n := by rw [find?_concat, hd, Option.bind_some, hn]
    have hitem : t.item? (p ++ [name]) ≠ none :=
      mt h.item?_eq_none_iff.mp (Option.ne_none_iff_exists'.mpr ⟨n, hfound⟩)
    exact hp _ hitem name (List.mem_append_right p List.mem_cons_self)

/-- Each entry of the empty tree can be addressed. -/
theorem addressable_empty (now : Int) : (Tree.empty now).Addressable := by
  intro n name hname
  by_cases hn : n ∈ (Tree.empty now).nodes.keys
  · obtain rfl : n = 0 := by
      have hkeys : (Tree.empty now).nodes.keys = [0] := rfl
      rw [hkeys] at hn
      exact List.mem_singleton.mp hn
    exact absurd rfl hname
  · rw [child?_of_unknown (itemOf_eq_none_iff.mpr hn)] at hname
    exact absurd rfl hname

/-- An edit leaves a tree of proper names just if it makes, if anything, a proper place. -/
theorem addressable_perform_iff {now : Int} {cwd : String} (h : t.WellFormed) (ha : t.Addressable)
    (e : Edit) :
    (e.perform now cwd t).2.Addressable ↔
      (e.Permitted cwd t.item? → ∀ s ∈ e.made cwd t.item?, Path.IsProper s) := by
  have hm := (addressable_iff h).mp ha
  have ho := outcome_perform now cwd h e
  generalize e.perform now cwd t = change at ho
  cases ho with
  | refused hp hr => exact iff_of_true ha fun hyes => absurd hyes hp
  | unchanged hp hi =>
    have heffect : (e.effect now cwd t.item?).Proper ↔ ∀ s ∈ e.made cwd t.item?, Path.IsProper s :=
      Edit.proper_effect_iff hm hp
    rw [Edit.effect_of_idle hi] at heffect
    exact iff_of_true ha fun _ => heffect.mp hm
  | changed hp hi hw hm' =>
    rw [addressable_iff hw, funext hm', Edit.proper_effect_iff hm hp]
    exact ⟨fun hmade _ => hmade, fun hmade => hmade hp⟩

end Tree

end TreeShell
