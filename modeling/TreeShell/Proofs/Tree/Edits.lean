import TreeShell.Proofs.Tree.Subtree

/-!
# Edits, place by place

A place stands to a well-formed tree in one of four ways: it is the root, there is no directory
above it, it is free in the directory above it, or it is an entry of that. Each edit is told by the
standing of its places: it is refused, or it adds a node, replaces an inode, or changes a subtree.
-/

namespace TreeShell.Tree

variable {t : Tree}

/-! ## Standings -/

/-- How a place stands to a tree. -/
inductive Standing (t : Tree) : Segments → Prop where
  /-- It is the root. -/
  | root : Standing t []
  /-- There is no directory above it. -/
  | orphan {p : Segments} {name : String} (hp : ∀ d, ¬ t.DirectoryAt p d) :
    Standing t (p ++ [name])
  /-- The directory above it has no such entry. -/
  | free {p : Segments} {name : String} {d : Nat} (hd : t.DirectoryAt p d)
    (hn : t.child? d name = none) : Standing t (p ++ [name])
  /-- It is an entry of the directory above it. -/
  | entry {p : Segments} {name : String} {d n : Nat} {i : Inode} (hd : t.DirectoryAt p d)
    (hn : t.child? d name = some n) (hi : t.nodes.get? n = some i) : Standing t (p ++ [name])

/-- Every place stands to a well-formed tree in one of the four ways. -/
theorem WellFormed.standing (h : t.WellFormed) (place : Segments) : t.Standing place := by
  rcases List.eq_nil_or_concat' place with rfl | ⟨p, name, rfl⟩
  · exact .root
  · by_cases hp : ∃ d, t.DirectoryAt p d
    · obtain ⟨d, hd⟩ := hp
      cases hn : t.child? d name with
      | none => exact .free hd hn
      | some n =>
        obtain ⟨i, hi⟩ := exists_inode_of_mem (h.child_known d name n hn)
        exact .entry hd hn hi
    · exact .orphan (not_exists.mp hp)

/-- There is one directory at a place at most. -/
theorem DirectoryAt.unique {p : Segments} {d d' : Nat} (hd : t.DirectoryAt p d)
    (hd' : t.DirectoryAt p d') : d = d' :=
  Option.some.inj (hd.found.symm.trans hd'.found)

/-- The root is always there. -/
theorem lookup_root (h : t.WellFormed) : ∃ i, t.lookup [] = some (t.root, i) := by
  obtain ⟨i, -, hl⟩ := h.exists_lookup find?_nil
  exact ⟨i, hl⟩

section Place

variable {p : Segments} {name : String} {d n : Nat} {i : Inode}

/-- The map has a parent for a place just if the tree has a directory above it. -/
theorem hasParent_iff : t.item?.HasParent (p ++ [name]) ↔ ∃ d, t.DirectoryAt p d :=
  PathMap.hasParent_concat_iff.trans hasDirectory_iff

/-- Nothing is found where there is no directory above. -/
theorem find?_of_orphan (hp : ∀ d, ¬ t.DirectoryAt p d) : t.find? (p ++ [name]) = none := by
  rw [Option.eq_none_iff_forall_ne_some]
  intro n hn
  obtain ⟨m, hm, hc⟩ := find?_concat_eq_some hn
  exact hp m ⟨hm, isDirectory_of_child? hc⟩

theorem find?_of_free (hd : t.DirectoryAt p d) (hn : t.child? d name = none) :
    t.find? (p ++ [name]) = none := by
  rw [find?_concat, hd.found, Option.bind_some, hn]

/-- An entry is found under its name. -/
theorem find?_of_entry (hd : t.DirectoryAt p d) (hn : t.child? d name = some n) :
    t.find? (p ++ [name]) = some n := by
  rw [find?_concat, hd.found, Option.bind_some, hn]

theorem item?_of_orphan (hp : ∀ d, ¬ t.DirectoryAt p d) : t.item? (p ++ [name]) = none := by
  rw [item?, find?_of_orphan hp, Option.bind_none]

/-- Nothing is at or below a place that is free. -/
theorem item?_of_free {q : Segments} (hd : t.DirectoryAt p d) (hn : t.child? d name = none)
    (hq : p ++ [name] <+: q) : t.item? q = none := by
  obtain ⟨s, rfl⟩ := hq
  rw [item?, find?_append, find?_of_free hd hn]
  rfl

/-- The map has at the place of an entry what the inode of the entry tells. -/
theorem item?_of_entry (hd : t.DirectoryAt p d) (hn : t.child? d name = some n)
    (hi : t.nodes.get? n = some i) : t.item? (p ++ [name]) = some i.item := by
  rw [item?_of_find? (find?_of_entry hd hn), itemOf_of_get? hi]

theorem lookup_of_find?_none (hp : t.find? p = none) : t.lookup p = none := by
  rw [lookup, hp, Option.bind_none]

theorem lookup_of_entry (hd : t.DirectoryAt p d) (hn : t.child? d name = some n)
    (hi : t.nodes.get? n = some i) : t.lookup (p ++ [name]) = some (n, i) :=
  lookup_eq_some_iff.mpr ⟨find?_of_entry hd hn, hi⟩

/-- An edit looks for the directory above a place, and finds none for an orphan. -/
theorem parent?_of_orphan (hp : ∀ d, ¬ t.DirectoryAt p d) (name : String) :
    t.parent? (p ++ [name]) = none := by
  rw [Option.eq_none_iff_forall_ne_some]
  rintro ⟨d, i, children⟩ hc
  have hd := (parent?_eq_some hc).1
  rw [List.dropLast_concat] at hd
  exact hp d hd

/-- Otherwise it finds the directory with its entries. -/
theorem parent?_of_directory (hd : t.DirectoryAt p d) (name : String) :
    ∃ i, t.nodes.get? d = some i ∧ t.parent? (p ++ [name]) = some (d, i, i.children) := by
  obtain ⟨i, hi, hdir⟩ := hd.directory
  refine ⟨i, hi, ?_⟩
  rw [parent?, List.dropLast_concat, lookup_eq_some_iff.mpr ⟨hd.found, hi⟩]
  dsimp only
  rw [Inode.body_of_directory hdir]

end Place

/-! ## Writing -/

section Write

variable {now : Int} {cwd path : String} {content : Content} {append : Bool}
  {p : Segments} {name : String} {d n : Nat} {i : Inode}

/-- The root cannot be written to. -/
theorem write_root (hr : Path.resolve path cwd = []) :
    t.write now cwd path content append = (.error (.isDirectory path), t) := by
  simp [write, hr]

/-- A place without a directory above it cannot be written. -/
theorem write_orphan (hr : Path.resolve path cwd = p ++ [name])
    (hp : ∀ d, ¬ t.DirectoryAt p d) :
    t.write now cwd path content append = (.error (.parentMissing path), t) := by
  simp [write, hr, parent?_of_orphan hp]

/-- To write at a free place adds a file. -/
theorem write_free (hr : Path.resolve path cwd = p ++ [name]) (hd : t.DirectoryAt p d)
    (hn : t.child? d name = none) :
    t.write now cwd path content append =
      (.ok true, (t.add d name ⟨.ofFile now, .file content⟩).1) := by
  obtain ⟨j, hj, hparent⟩ := parent?_of_directory hd name
  rw [child?_of_get? hj] at hn
  simp [write, hr, hparent, hn]

/-- An entry that is a directory cannot be written to. -/
theorem write_directory (hr : Path.resolve path cwd = p ++ [name]) (hd : t.DirectoryAt p d)
    (hn : t.child? d name = some n) (hi : t.nodes.get? n = some i) (hdir : i.isDirectory = true) :
    t.write now cwd path content append = (.error (.isDirectory path), t) := by
  obtain ⟨j, hj, hparent⟩ := parent?_of_directory hd name
  rw [child?_of_get? hj] at hn
  simp [write, hr, hparent, hn, hi, Inode.body_of_directory hdir]

/-- An entry that is a file holds the new content, or its own with the new one behind it. -/
theorem write_file_ok (hr : Path.resolve path cwd = p ++ [name]) (hd : t.DirectoryAt p d)
    (hn : t.child? d name = some n) (hi : t.nodes.get? n = some i) {old new : Content}
    (hbody : i.body = .file old)
    (hnew : (if append then old.join content else .ok content) = .ok new) :
    t.write now cwd path content append =
      (.ok true, t.put n { i.modified now with body := .file new }) := by
  obtain ⟨j, hj, hparent⟩ := parent?_of_directory hd name
  rw [child?_of_get? hj] at hn
  simp [write, hr, hparent, hn, hi, hbody, hnew]

/-- Content that cannot be put behind what is there leaves the tree as it was. -/
theorem write_file_error (hr : Path.resolve path cwd = p ++ [name]) (hd : t.DirectoryAt p d)
    (hn : t.child? d name = some n) (hi : t.nodes.get? n = some i) {old : Content}
    (hbody : i.body = .file old) {e : ContentError}
    (hnew : (if append then old.join content else .ok content) = .error e) :
    t.write now cwd path content append = (.error (.content e), t) := by
  obtain ⟨j, hj, hparent⟩ := parent?_of_directory hd name
  rw [child?_of_get? hj] at hn
  simp [write, hr, hparent, hn, hi, hbody, hnew]

end Write

/-! ## Making directories -/

section Directories

variable {now : Int} {cwd path : String} {p : Segments} {name : String} {d n : Nat} {i : Inode}

/-- A place where something is, be it a file or a directory, is taken. -/
theorem createDirectory_of_lookup {e : Nat × Inode}
    (hl : t.lookup (Path.resolve path cwd) = some e) :
    t.createDirectory now cwd path = (.error (.taken path), t) := by
  simp [createDirectory, hl]

/-- No directory is made where there is none above it. -/
theorem createDirectory_orphan (hr : Path.resolve path cwd = p ++ [name])
    (hp : ∀ d, ¬ t.DirectoryAt p d) :
    t.createDirectory now cwd path = (.error (.parentMissing path), t) := by
  simp [createDirectory, hr, parent?_of_orphan hp, lookup_of_find?_none (find?_of_orphan hp)]

/-- At a free place an empty directory is added. -/
theorem createDirectory_free (hr : Path.resolve path cwd = p ++ [name]) (hd : t.DirectoryAt p d)
    (hn : t.child? d name = none) :
    t.createDirectory now cwd path =
      (.ok true, (t.add d name ⟨.ofDirectory now, .directory ∅⟩).1) := by
  obtain ⟨j, hj, hparent⟩ := parent?_of_directory hd name
  simp [createDirectory, hr, hparent, lookup_of_find?_none (find?_of_free hd hn)]

/-- On the way down a missing directory is made, and the way goes on in it. -/
theorem makeDirectoriesFrom_free {made : Bool} {rest : Segments} (hn : t.child? d name = none) :
    makeDirectoriesFrom now path t made d (name :: rest) =
      makeDirectoriesFrom now path (t.add d name ⟨.ofDirectory now, .directory ∅⟩).1 true t.next
        rest := by
  rw [makeDirectoriesFrom, hn]
  rfl

/-- On the way down a directory that is there is gone into. -/
theorem makeDirectoriesFrom_directory {made : Bool} {rest : Segments}
    (hn : t.child? d name = some n) (hi : t.nodes.get? n = some i) (hdir : i.isDirectory = true) :
    makeDirectoriesFrom now path t made d (name :: rest) =
      makeDirectoriesFrom now path t made n rest := by
  simp [makeDirectoriesFrom, hn, hi, hdir]

/-- A file on the way down ends it. -/
theorem makeDirectoriesFrom_file {made : Bool} {rest : Segments}
    (hn : t.child? d name = some n) (hi : t.nodes.get? n = some i) (hdir : i.isDirectory = false) :
    makeDirectoriesFrom now path t made d (name :: rest) = (.error (.notDirectory path), t) := by
  simp [makeDirectoriesFrom, hn, hi, hdir]

/-- On the way to a directory there are only directories. -/
theorem DirectoryAt.hasDirectory_of_prefix (hd : t.DirectoryAt p d) {q : Segments}
    (hq : q <+: p) : t.item?.HasDirectory q := by
  obtain ⟨s, rfl⟩ := hq
  cases s with
  | nil => exact hasDirectory_iff.mpr ⟨d, by rwa [List.append_nil] at hd⟩
  | cons a s => exact hasDirectory_iff.mpr (directoryAt_of_find? hd.found)

/-- What begins a path through a name begins the part before the name, or has the name in it. -/
theorem prefix_concat_cases {q rest : Segments} (hq : q <+: p ++ name :: rest) :
    q <+: p ∨ p ++ [name] <+: q := by
  have hp : p ++ [name] <+: p ++ name :: rest := ⟨rest, by simp⟩
  rcases List.prefix_or_prefix_of_prefix hq hp with h | h
  · rcases List.prefix_concat_iff.mp h with rfl | h
    · exact Or.inr (List.prefix_refl _)
    · exact Or.inl h
  · exact Or.inr h

/-- A directory that is an entry of a directory is at the place of its name. -/
theorem directoryAt_entry (hd : t.DirectoryAt p d) (hn : t.child? d name = some n)
    (hi : t.nodes.get? n = some i) (hdir : i.isDirectory = true) :
    t.DirectoryAt (p ++ [name]) n :=
  ⟨find?_of_entry hd hn, i, hi, hdir⟩

/-- A directory that was added is at the place of its name. -/
theorem directoryAt_add (h : t.WellFormed) (hd : t.DirectoryAt p d) (hn : t.child? d name = none)
    (a : Attributes) :
    (t.add d name ⟨a, .directory ∅⟩).1.DirectoryAt (p ++ [name]) t.next := by
  refine ⟨by rw [find?_add h hd hn rfl, if_pos rfl], ?_⟩
  rw [exists_directory_iff, itemOf_add h hd, if_pos rfl]
  exact ⟨_, rfl, rfl⟩

/-- A file on the way stops the making of directories; nothing has been made until then. -/
theorem makeDirectoriesFrom_error (h : t.WellFormed) (now : Int) (path : String) (made : Bool)
    {rest : Segments} (hd : t.DirectoryAt p d) (hfile : ∃ q, q <+: p ++ rest ∧ t.item?.HasFile q) :
    makeDirectoriesFrom now path t made d rest = (.error (.notDirectory path), t) := by
  obtain ⟨q, hq, hf⟩ := hfile
  induction rest generalizing p d with
  | nil =>
    rw [List.append_nil] at hq
    exact absurd hf (hd.hasDirectory_of_prefix hq).not_hasFile
  | cons name rest ih =>
    cases hn : t.child? d name with
    | none =>
      rcases prefix_concat_cases hq with hq | hq
      · exact absurd hf (hd.hasDirectory_of_prefix hq).not_hasFile
      · obtain ⟨item, hi, -⟩ := hf
        rw [item?_of_free hd hn hq] at hi
        cases hi
    | some n =>
      obtain ⟨i, hi⟩ := exists_inode_of_mem (h.child_known d name n hn)
      cases hdir : i.isDirectory with
      | false => exact makeDirectoriesFrom_file hn hi hdir
      | true =>
        rw [makeDirectoriesFrom_directory hn hi hdir]
        exact ih (directoryAt_entry hd hn hi hdir) (by simpa using hq)

/-- Without a file on the way the missing directories are made, and nothing else changes. -/
theorem makeDirectoriesFrom_ok (h : t.WellFormed) (now : Int) (path : String) (made : Bool)
    {rest : Segments} (hd : t.DirectoryAt p d)
    (hfree : ∀ q, q <+: p ++ rest → ¬ t.item?.HasFile q) :
    ∃ b t', makeDirectoriesFrom now path t made d rest = (.ok b, t') ∧ t'.WellFormed ∧
      (b = true ↔ made = true ∨ ∃ q, q <+: p ++ rest ∧ t.item? q = none) ∧
      (b = false → t' = t) ∧
      ∀ q, t'.item? q =
        if q <+: p ++ rest ∧ t.item? q = none then some ⟨.ofDirectory now, none⟩
        else t.item? q := by
  induction rest generalizing t p d made with
  | nil =>
    rw [List.append_nil]
    have hpresent : ∀ q, ¬ (q <+: p ∧ t.item? q = none) := by
      rintro q ⟨hq, hnone⟩
      obtain ⟨item, hi, -⟩ := hd.hasDirectory_of_prefix hq
      rw [hnone] at hi
      cases hi
    exact ⟨made, t, rfl, h, by simp only [hpresent, exists_false, or_false], fun _ => rfl,
      fun q => by rw [if_neg (hpresent q)]⟩
  | cons name rest ih =>
    have happend : p ++ name :: rest = p ++ [name] ++ rest := by simp
    rw [happend] at hfree ⊢
    cases hn : t.child? d name with
    | none =>
      rw [makeDirectoriesFrom_free hn]
      have hitem := item?_add (i := ⟨.ofDirectory now, .directory ∅⟩) h hd hn rfl
      have hadd := wellFormed_add (i := ⟨.ofDirectory now, .directory ∅⟩) h hd hn rfl
      obtain ⟨b, t', he, hwf, hb, -, hmap⟩ :=
        ih hadd true (directoryAt_add h hd hn (.ofDirectory now)) (by
          rintro q hq ⟨item, hi, hf⟩
          rw [hitem] at hi
          split at hi
          · cases hi
            cases hf
          · exact hfree q hq ⟨item, hi, hf⟩)
      have htrue : b = true := hb.mpr (Or.inl rfl)
      refine ⟨b, t', he, hwf, ?_, by simp [htrue], ?_⟩
      · simp only [htrue, true_iff]
        exact Or.inr ⟨p ++ [name], ⟨rest, rfl⟩, item?_of_free hd hn (List.prefix_refl _)⟩
      · intro q
        rw [hmap, hitem]
        by_cases hq : q = p ++ [name]
        · have hnew : q <+: p ++ [name] ++ rest ∧ t.item? q = none := by
            rw [hq]
            exact ⟨⟨rest, rfl⟩, item?_of_free hd hn (List.prefix_refl _)⟩
          rw [if_pos hq, if_pos hnew, if_neg (by simp)]
          rfl
        · rw [if_neg hq]
    | some n =>
      obtain ⟨i, hi⟩ := exists_inode_of_mem (h.child_known d name n hn)
      cases hdir : i.isDirectory with
      | false =>
        have hitem := item?_of_entry hd hn hi
        exact absurd ⟨i.item, hitem, by rw [Inode.isDirectory_item, hdir]⟩
          (hfree (p ++ [name]) ⟨rest, rfl⟩)
      | true =>
        rw [makeDirectoriesFrom_directory hn hi hdir]
        exact ih h made (directoryAt_entry hd hn hi hdir) hfree

end Directories

/-! ## Noting the time, and taking out -/

section Delete

variable {now : Int} {cwd path : String} {p : Segments} {name : String} {d n : Nat} {i : Inode}

/-- To touch a node that is there notes the time. -/
theorem touch_of_lookup (hl : t.lookup (Path.resolve path cwd) = some (n, i)) :
    t.touch now cwd path = (.ok true, t.put n (i.modified now)) := by
  rw [touch, hl]

/-- To touch a place where nothing is writes an empty file. -/
theorem touch_of_lookup_none (hl : t.lookup (Path.resolve path cwd) = none) :
    t.touch now cwd path = t.write now cwd path (.string "") false := by
  rw [touch, hl]

/-- The root cannot be deleted. -/
theorem delete_root {recursive : Bool} (hr : Path.resolve path cwd = []) :
    t.delete cwd path recursive = (.error .removeRoot, t) := by
  simp [delete, hr]

/-- Only what is there can be deleted. -/
theorem delete_of_lookup_none {recursive : Bool} (hr : Path.resolve path cwd = p ++ [name])
    (hl : t.lookup (p ++ [name]) = none) :
    t.delete cwd path recursive = (.error (.notFound path), t) := by
  simp [delete, hr, hl]

/-- A directory with entries is deleted only with all of them; an entry that is deleted is taken out
of its directory, and all that was below it is let go. -/
theorem delete_entry {recursive : Bool} (hr : Path.resolve path cwd = p ++ [name])
    (hd : t.DirectoryAt p d) (hn : t.child? d name = some n) (hi : t.nodes.get? n = some i) :
    t.delete cwd path recursive =
      if !i.children.isEmpty && !recursive then (.error (.notEmpty path), t)
      else (.ok true, (t.unlink d name).release n) := by
  obtain ⟨j, -, hparent⟩ := parent?_of_directory hd name
  simp [delete, hr, hparent, lookup_of_entry hd hn hi]

/-- A node has entries if and only if something is found below it. -/
theorem isEmpty_children_iff (h : t.WellFormed) (hd : t.DirectoryAt p d)
    (hn : t.child? d name = some n) (hi : t.nodes.get? n = some i) :
    i.children.isEmpty = true ↔ ∀ a, t.item? (p ++ [name] ++ [a]) = none := by
  rw [OrderedMap.isEmpty_iff]
  refine forall_congr' fun a => ?_
  rw [h.item?_eq_none_iff, find?_concat, find?_of_entry hd hn, Option.bind_some,
    child?_of_get? hi]

end Delete

/-! ## Moving -/

section Move

variable {cwd source destination : String} {p : Segments} {name : String} {d n : Nat} {i : Inode}

/-- The root cannot be moved. -/
theorem move_root (hr : Path.resolve source cwd = []) :
    t.move cwd source destination = (.error .moveRoot, t) := by
  simp [move, hr]

/-- Only what is there can be moved. -/
theorem move_of_lookup_none (hr : Path.resolve source cwd = p ++ [name])
    (hl : t.lookup (p ++ [name]) = none) :
    t.move cwd source destination = (.error (.notFound source), t) := by
  simp [move, hr, hl]

/-- A landing place is a place in some directory: a move to the root goes into the root. -/
theorem landing_ne_nil (h : t.WellFormed) (place : Segments) (name : String) :
    t.landing place name ≠ [] := by
  unfold landing
  cases hl : t.lookup place with
  | none =>
    rintro rfl
    obtain ⟨i, hi⟩ := lookup_root h
    rw [hi] at hl
    cases hl
  | some e =>
    obtain ⟨m, j⟩ := e
    dsimp only
    cases hdir : j.isDirectory with
    | true => simp
    | false =>
      rw [if_neg (by simp)]
      rintro rfl
      obtain ⟨i, hi, hroot⟩ := h.root_directory
      obtain ⟨hf, hj⟩ := lookup_eq_some_iff.mp hl
      obtain rfl : t.root = m := Option.some.inj hf
      rw [hi, Option.some.injEq] at hj
      rw [← hj, hroot] at hdir
      cases hdir

/-- The tree and its plain map take a moved node to the same place. -/
theorem landing_item? (place : Segments) (name : String) :
    t.item?.landing place name = t.landing place name := by
  rw [landing, PathMap.landing, item?_eq_map_lookup]
  cases t.lookup place with
  | none => rfl
  | some e =>
    obtain ⟨n, i⟩ := e
    rw [Option.map_some]
    dsimp only
    rw [Inode.isDirectory_item]

/-- Nothing is moved to a place without a directory above it. -/
theorem moveBetween_orphan {src p' : Segments} {name' : String}
    (hp' : ∀ d', ¬ t.DirectoryAt p' d') :
    t.moveBetween n src (p' ++ [name']) source destination =
      (.error (.parentMissing destination), t) := by
  rw [moveBetween, parent?_of_orphan hp']

/-- From one directory to another an entry is linked anew. -/
theorem moveBetween_directory {p' : Segments} {name' : String} {d' : Nat} (hd : t.DirectoryAt p d)
    (hd' : t.DirectoryAt p' d') :
    t.moveBetween n (p ++ [name]) (p' ++ [name']) source destination =
      (.ok true, t.relink n (p ++ [name]) (p' ++ [name']) d d') := by
  obtain ⟨j, -, hparent⟩ := parent?_of_directory hd name
  obtain ⟨j', -, hparent'⟩ := parent?_of_directory hd' name'
  rw [moveBetween, hparent', hparent]

/-- A move of an entry goes by where it lands: at itself, below itself, on a directory, on a file,
or at a free place. -/
theorem move_entry {dst : Segments} (hr : Path.resolve source cwd = p ++ [name])
    (hdst : t.landing (Path.resolve destination cwd) name = dst) (hd : t.DirectoryAt p d)
    (hn : t.child? d name = some n) (hi : t.nodes.get? n = some i) :
    t.move cwd source destination =
      if dst = p ++ [name] then (.ok false, t)
      else if p ++ [name] <+: dst then (.error (.intoItself source), t)
      else
        match t.lookup dst with
        | none => t.moveBetween n (p ++ [name]) dst source destination
        | some (_, j) =>
          if j.isDirectory then (.error (.isDirectory (Path.format dst)), t)
          else if i.isDirectory then (.error (.overFile (Path.format dst) source), t)
          else t.moveBetween n (p ++ [name]) dst source destination := by
  have hlast : (p ++ [name]).getLast? = some name := by simp
  unfold move
  rewrite [hr]
  dsimp only
  rewrite [hlast]
  dsimp only
  rewrite [lookup_of_entry hd hn hi]
  dsimp only
  rewrite [hdst]
  rfl

end Move

end TreeShell.Tree
