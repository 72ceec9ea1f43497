import TreeShell.Proofs.Tree.Names

/-!
# How far paths climb

From any place a path leads some segments up and then others down. What it leaves of a working
directory are the segments that it does not climb over, as they stand there. So the place that it
leads to is canonical just if none of these is a dot or two dots, and the working directory is
folded by the rules of the path just if it is straight or climbed over as a whole.
-/

namespace TreeShell.Path

variable {path cwd : String} {p : Segments} {n : Nat}

/-! ## Up and down -/

/-- Where parts of a path lead from any place: so many segments up, and then down. -/
structure Climb where
  up : Nat
  down : Segments

namespace Climb

/-- One part more: two dots lead up where nothing can be gone back. -/
def step (c : Climb) (part : String) : Climb :=
  ⟨if part = ".." ∧ c.down = [] then c.up + 1 else c.up, Path.step c.down part⟩

/-- Where a climb ends that begins at a place. -/
def endFrom (c : Climb) (p : Segments) : Segments := p.take (p.length - c.up) ++ c.down

/-- A step of a climb ends where the step leads from its end. -/
theorem step_endFrom (c : Climb) (part : String) (p : Segments) :
    Path.step (c.endFrom p) part = (c.step part).endFrom p := by
  by_cases hstay : part = "" ∨ part = "."
  · have hup : ¬ (part = ".." ∧ c.down = []) := by
      rintro ⟨rfl, -⟩
      simp at hstay
    rw [step, if_neg hup, Path.step, Path.step, if_pos hstay, if_pos hstay]
  · by_cases hdots : part = ".."
    · rw [step, Path.step, Path.step, if_neg hstay, if_neg hstay, if_pos hdots, if_pos hdots]
      by_cases hdown : c.down = []
      · -- nothing can be gone back, so one segment less is left of the place
        have hlength : (p.take (p.length - c.up)).length = p.length - c.up :=
          List.length_take_of_le (Nat.sub_le _ _)
        rw [if_pos ⟨hdots, hdown⟩, endFrom, endFrom, hdown, List.dropLast_nil, List.append_nil,
          List.append_nil, List.dropLast_eq_take, hlength, List.take_take, Nat.sub_sub,
          Nat.min_eq_left (by omega)]
      · rw [if_neg fun h => hdown h.2, endFrom, endFrom, List.dropLast_append_of_ne_nil hdown]
    · rw [step, if_neg fun h => hdots h.1, Path.step, Path.step, if_neg hstay, if_neg hstay,
        if_neg hdots, if_neg hdots, endFrom, endFrom, List.append_assoc]

/-- Several steps of a climb end where they lead from its end. -/
theorem foldl_step_endFrom (parts : List String) (c : Climb) (p : Segments) :
    parts.foldl Path.step (c.endFrom p) = (parts.foldl step c).endFrom p := by
  induction parts generalizing c with
  | nil => rfl
  | cons part parts ih => rw [List.foldl_cons, List.foldl_cons, step_endFrom, ih]

/-- What a climb goes down is the path it makes from the root. -/
theorem down_foldl_step (parts : List String) (c : Climb) :
    (parts.foldl step c).down = parts.foldl Path.step c.down := by
  induction parts generalizing c with
  | nil => rfl
  | cons part parts ih => rw [List.foldl_cons, List.foldl_cons, ih, step]

end Climb

/-- How many segments of the place where it begins a path climbs over. -/
def climbed (path : String) : Nat := ((parts path).foldl Climb.step ⟨0, []⟩).up

/-- A path leads from any place to what it does not climb over, and from there down where it leads
from the root. -/
theorem foldl_step_parts (path : String) (p : Segments) :
    (parts path).foldl step p = p.take (p.length - climbed path) ++ resolve path "/" := by
  have hstart : Climb.endFrom ⟨0, []⟩ p = p := by
    rw [Climb.endFrom, Nat.sub_zero, List.take_length, List.append_nil]
  rw [← hstart, Climb.foldl_step_endFrom, Climb.endFrom, Climb.down_foldl_step, ← resolve_root,
    hstart, climbed]

/-- The segments of a working directory that a path does not climb over. -/
def kept (path cwd : String) : Segments := (base cwd).take ((base cwd).length - climbed path)

/-- A relative path goes on from what it keeps of the working directory. -/
theorem resolve_of_relative (h : ¬ Text.hasStart path "/" = true) (cwd : String) :
    resolve path cwd = kept path cwd ++ resolve path "/" := by
  rw [resolve, if_neg h, foldl_step_parts, kept]

/-- What a working directory and a path lead to as one path. -/
theorem resolve_joined (path cwd : String) :
    resolve (cwd ++ ("/" ++ path)) "/" =
      (resolve cwd "/").take ((resolve cwd "/").length - climbed path) ++ resolve path "/" := by
  rw [resolve_root, parts_append, List.foldl_append, ← resolve_root, foldl_step_parts]

/-! ## Dots in working directories -/

/-- A segment of a working directory is proper unless it is a dot or two dots. -/
theorem isProper_iff_of_mem_base {s : String} (h : s ∈ base cwd) :
    IsProper s ↔ s ≠ "." ∧ s ≠ ".." := by
  obtain ⟨hpart, hne⟩ := List.mem_filter.mp h
  constructor
  · exact fun hs => ⟨hs.ne_dot, hs.ne_dots⟩
  · exact fun hs => ⟨of_decide_eq_true hne, hs.1, hs.2, not_mem_of_mem_parts hpart⟩

/-- A working directory is straight just if none of its parts is a dot or two dots. -/
theorem isStraight_iff_no_dots : IsStraight cwd ↔ ∀ s ∈ parts cwd, s ≠ "." ∧ s ≠ ".." := by
  rw [isStraight_iff]
  constructor
  · intro h s hs
    by_cases he : s = ""
    · subst he
      decide
    · have hbase : s ∈ base cwd := List.mem_filter.mpr ⟨hs, decide_eq_true he⟩
      exact (isProper_iff_of_mem_base hbase).mp (h s hbase)
  · intro h s hs
    exact (isProper_iff_of_mem_base hs).mpr (h s (List.mem_of_mem_filter hs))

/-- A path leads to a canonical place just if it begins at the root or leaves no dots of its working
directory. -/
theorem proper_resolve_iff :
    (∀ s ∈ resolve path cwd, IsProper s) ↔
      Text.hasStart path "/" = true ∨ ∀ s ∈ kept path cwd, s ≠ "." ∧ s ≠ ".." := by
  by_cases hstart : Text.hasStart path "/" = true
  · exact iff_of_true (proper_resolve (Or.inl hstart)) (Or.inl hstart)
  · rw [resolve_of_relative hstart, or_iff_right hstart, List.forall_mem_append,
      and_iff_left (proper_resolve_root path)]
    exact forall₂_congr fun s hs => isProper_iff_of_mem_base (List.mem_of_mem_take hs)

/-- A step goes down by one name at most. -/
theorem length_step_le (p : Segments) (part : String) : (step p part).length ≤ p.length + 1 := by
  unfold step
  split
  · omega
  · split
    · rw [List.length_dropLast]
      omega
    · rw [List.length_append, List.length_singleton]

/-- Several steps go down by one name each at most. -/
theorem length_foldl_step_le (ps : List String) (p : Segments) :
    (ps.foldl step p).length ≤ p.length + ps.length := by
  induction ps generalizing p with
  | nil => exact Nat.le_refl _
  | cons part ps ih =>
    have hstep := length_step_le p part
    have hrest := ih (step p part)
    rw [List.foldl_cons, List.length_cons]
    omega

/-- Where there are dots among some parts, these lead down less far than there are parts. -/
theorem length_foldl_step_lt {ps : List String} (h : ∃ s ∈ ps, s = "." ∨ s = "..")
    (p : Segments) : (ps.foldl step p).length < p.length + ps.length := by
  induction ps generalizing p with
  | nil =>
    obtain ⟨s, hs, -⟩ := h
    cases hs
  | cons part ps ih =>
    rw [List.foldl_cons, List.length_cons]
    by_cases hdots : part = "." ∨ part = ".."
    · have hstep : (step p part).length ≤ p.length := by
        rcases hdots with rfl | rfl
        · exact Nat.le_refl _
        · exact (List.length_dropLast).trans_le (Nat.sub_le _ _)
      have hrest := length_foldl_step_le ps (step p part)
      omega
    · obtain ⟨s, hs, hsdots⟩ := h
      have hlater : s ∈ ps := by
        rcases List.mem_cons.mp hs with rfl | hs
        · exact absurd hsdots hdots
        · exact hs
      have hstep := length_step_le p part
      have hrest := ih ⟨s, hlater, hsdots⟩ (step p part)
      omega

/-- A working directory leads, as a path, no deeper than it has segments, and less deep if it is not
straight. -/
theorem length_resolve_le (cwd : String) : (resolve cwd "/").length ≤ (base cwd).length := by
  have hle := length_foldl_step_le (base cwd) []
  rwa [base, foldl_step_filter, ← resolve_root, ← base, List.length_nil, Nat.zero_add] at hle

/-- A directory that is not canonical becomes shorter when it is resolved. -/
theorem length_resolve_lt (h : ¬ IsStraight cwd) :
    (resolve cwd "/").length < (base cwd).length := by
  have hdots : ∃ s ∈ base cwd, s = "." ∨ s = ".." := by
    by_contra hnone
    exact h (isStraight_iff.mpr fun s hs => (isProper_iff_of_mem_base hs).mpr
      ⟨fun he => hnone ⟨s, hs, Or.inl he⟩, fun he => hnone ⟨s, hs, Or.inr he⟩⟩)
  have hlt := length_foldl_step_lt hdots []
  rwa [base, foldl_step_filter, ← resolve_root, ← base, List.length_nil, Nat.zero_add] at hlt

/-! ## One rule for both -/

/-- A path is resolved by one rule: to proper segments and, if it does not begin at the root, to
where the working directory and it lead as one path. -/
structure Folds (path cwd : String) : Prop where
  proper : ∀ s ∈ resolve path cwd, IsProper s
  joined : ¬ Text.hasStart path "/" = true →
    resolve path cwd = resolve (cwd ++ ("/" ++ path)) "/"

/-- What is left of a working directory is what is left of the place that it leads to as a path just
if it is straight, or nothing is left of it. -/
theorem kept_eq_iff :
    kept path cwd = (resolve cwd "/").take ((resolve cwd "/").length - climbed path) ↔
      IsStraight cwd ∨ (base cwd).length ≤ climbed path := by
  have hle := length_resolve_le cwd
  constructor
  · intro heq
    by_contra hnone
    rw [not_or] at hnone
    have hlt := length_resolve_lt hnone.1
    have hlength := congrArg List.length heq
    rw [kept, List.length_take, List.length_take] at hlength
    omega
  · rintro (hstraight | hover)
    · rw [kept, show base cwd = resolve cwd "/" from hstraight]
    · rw [kept, Nat.sub_eq_zero_of_le hover, Nat.sub_eq_zero_of_le (hle.trans hover),
        List.take_zero, List.take_zero]

/-- A path folds just if it is absolute, the working directory is canonical, or nothing of it is
kept. -/
theorem folds_iff :
    Folds path cwd ↔
      Text.hasStart path "/" = true ∨ IsStraight cwd ∨ (base cwd).length ≤ climbed path := by
  by_cases hstart : Text.hasStart path "/" = true
  · exact iff_of_true ⟨proper_resolve (Or.inl hstart), fun h => absurd hstart h⟩ (Or.inl hstart)
  · rw [or_iff_right hstart, ← kept_eq_iff]
    constructor
    · intro h
      have hjoined := h.joined hstart
      rw [resolve_of_relative hstart, resolve_joined] at hjoined
      exact List.append_cancel_right hjoined
    · intro hkept
      have hjoined : resolve path cwd = resolve (cwd ++ ("/" ++ path)) "/" := by
        rw [resolve_of_relative hstart, resolve_joined, hkept]
      exact ⟨hjoined ▸ proper_resolve_root _, fun _ => hjoined⟩

/-- A path leads to a canonical place just if it begins at the root, or climbs over all dots that
are parts of its working directory. It is resolved by one rule with the working directory just if it
begins at the root, climbs over the whole working directory, or this has no dots as parts; so from a
working directory all paths are just in the last case. -/
theorem folds_unless_dots (path cwd : String) :
    ((∀ s ∈ resolve path cwd, IsProper s) ↔
        Text.hasStart path "/" = true ∨ ∀ s ∈ kept path cwd, s ≠ "." ∧ s ≠ "..") ∧
      (Folds path cwd ↔
        Text.hasStart path "/" = true ∨ (∀ s ∈ parts cwd, s ≠ "." ∧ s ≠ "..") ∨
          (base cwd).length ≤ climbed path) ∧
      ((∀ other, Folds other cwd) ↔ ∀ s ∈ parts cwd, s ≠ "." ∧ s ≠ "..") := by
  refine ⟨proper_resolve_iff, by rw [folds_iff, isStraight_iff_no_dots], ?_⟩
  rw [← isStraight_iff_no_dots]
  constructor
  · intro h
    -- the empty path climbs over nothing
    rcases folds_iff.mp (h "") with hstart | hstraight | hover
    · exact absurd hstart (by decide)
    · exact hstraight
    · have hnone : base cwd = [] := List.eq_nil_of_length_eq_zero (Nat.le_zero.mp hover)
      exact isStraight_iff.mpr fun s hs => by rw [hnone] at hs; cases hs
  · exact fun h other => folds_iff.mpr (Or.inr (Or.inl h))

/-- From a working directory that goes down and up again, a name leads to a place that is not
canonical, and not to where both lead as one path. -/
theorem keeps_dots_of_directory :
    resolve "x" "/a/.." = ["a", "..", "x"] ∧ resolve "/a/../x" "/" = ["x"] ∧
      ¬ Folds "x" "/a/.." := by
  refine ⟨by decide +kernel, by decide +kernel, fun h => ?_⟩
  have hdots : ".." ∈ resolve "x" "/a/.." := by decide +kernel
  exact (h.proper ".." hdots).ne_dots rfl

end TreeShell.Path
