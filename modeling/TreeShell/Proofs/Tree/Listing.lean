import Mathlib.Data.List.Sort
import Mathlib.Data.String.Basic
import TreeShell.Proofs.Tree.Links

/-!
# Listings

A directory lists the names of its entries, each of them once and in ascending order; nothing else
can be listed.
-/

namespace TreeShell

namespace Text

variable {l : List String}

/-- Sorting keeps the names. -/
theorem sorted_perm (l : List String) : (sorted l).Perm l := List.mergeSort_perm l _

/-- What is sorted has the same names. -/
theorem mem_sorted {s : String} : s ∈ sorted l ↔ s ∈ l := (sorted_perm l).mem_iff

/-- What is sorted is in order. -/
theorem pairwise_sorted (l : List String) : (sorted l).Pairwise (· ≤ ·) := by
  have hsorted : (sorted l).Pairwise fun a b => decide (a ≤ b) = true := by
    refine List.pairwise_mergeSort (fun a b c hab hbc => ?_) (fun a b => ?_) l
    · rw [decide_eq_true_iff] at hab hbc ⊢
      exact hab.trans hbc
    · rw [Bool.or_eq_true, decide_eq_true_iff, decide_eq_true_iff]
      exact le_total a b
  exact hsorted.imp fun h => of_decide_eq_true h

/-- Different texts are sorted in strictly ascending order. -/
theorem pairwise_lt_sorted (h : l.Nodup) : (sorted l).Pairwise (· < ·) := by
  have hnodup : (sorted l).Nodup := (sorted_perm l).nodup_iff.mpr h
  exact ((pairwise_sorted l).and hnodup).imp fun ⟨hle, hne⟩ => lt_of_le_of_ne hle hne

/-- Texts that are in order are what the same texts are sorted to. -/
theorem sorted_eq {l' : List String} (hp : l.Perm l') (hs : l'.Pairwise (· ≤ ·)) :
    sorted l = l' :=
  ((sorted_perm l).trans hp).eq_of_pairwise (fun _ _ _ _ => le_antisymm) (pairwise_sorted l) hs

/-- One name is in order. -/
theorem sorted_singleton (s : String) : sorted [s] = [s] := List.mergeSort_singleton s

end Text

namespace Tree

variable {t : Tree} {path cwd : String} {names : List String}

/-- A list of the entries of a directory. -/
structure Lists (t : Tree) (place : Segments) (names : List String) : Prop where
  /-- The place is a directory. -/
  directory : t.item?.HasDirectory place
  /-- The list has the entries of the directory, and nothing else. -/
  mem_iff : ∀ name, name ∈ names ↔ t.find? (place ++ [name]) ≠ none
  /-- No entry is listed twice, and they are in order. -/
  ascending : names.Pairwise (· < ·)

/-- What is listed at a path are the entries of the directory that is there. -/
theorem lists_of_childNames (h : t.childNames path cwd = .ok names) :
    t.Lists (Path.resolve path cwd) names := by
  unfold childNames at h
  split at h
  · cases h
  next n i hl =>
  split at h
  · cases h
  next children hbody =>
  cases h
  obtain ⟨hfind, hi⟩ := lookup_eq_some_iff.mp hl
  have hdir : i.isDirectory = true := by rw [Inode.isDirectory, hbody]
  have hchildren : i.children = children := by rw [Inode.children, hbody]
  refine ⟨hasDirectory_iff.mpr ⟨n, hfind, i, hi, hdir⟩, fun name => ?_,
    Text.pairwise_lt_sorted children.nodup⟩
  rw [Text.mem_sorted, find?_concat, hfind, Option.bind_some, child?_of_get? hi, hchildren, Ne,
    OrderedMap.get?_eq_none_iff, not_not]

/-- A directory can be listed. -/
theorem exists_childNames (h : t.item?.HasDirectory (Path.resolve path cwd)) :
    ∃ names, t.childNames path cwd = .ok names := by
  obtain ⟨n, hfind, i, hi, hdir⟩ := hasDirectory_iff.mp h
  refine ⟨Text.sorted i.children.keys, ?_⟩
  rw [childNames, lookup_eq_some_iff.mpr ⟨hfind, hi⟩]
  dsimp only
  rw [Inode.body_of_directory hdir]

/-- What is no directory cannot be listed. -/
theorem childNames_eq_error_iff :
    (∃ e, t.childNames path cwd = .error e) ↔ ¬ t.item?.HasDirectory (Path.resolve path cwd) := by
  constructor
  · rintro ⟨e, he⟩ hdir
    obtain ⟨names, hnames⟩ := exists_childNames hdir
    rw [hnames] at he
    cases he
  · intro hdir
    cases hnames : t.childNames path cwd with
    | error e => exact ⟨e, rfl⟩
    | ok names => exact absurd (lists_of_childNames hnames).directory hdir

end Tree

end TreeShell
