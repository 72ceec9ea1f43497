import TreeShell.Journal

/-!
# What a journal keeps

A new entry comes last, and the oldest give way to it when there are more than the capacity allows;
those that stay keep their order. Without a capacity nothing ever gives way.
-/

namespace TreeShell.Journal

/-- How a journal takes an entry: it stands behind the older ones, of which the latest stay, as many
as there is room for beside it. A journal whose capacity is zero has no room for any. -/
structure Takes (j : Journal) (e : Entry) (j' : Journal) : Prop where
  capacity : j'.capacity = j.capacity
  /-- The entry is the last one, and the oldest give way only to the capacity. -/
  last : j.capacity ≠ some 0 → ∃ oldest kept, j.entries = oldest ++ kept ∧
    j'.entries = kept ++ [e] ∧ (oldest = [] ∨ j.capacity = some (kept.length + 1))
  noRoom : j.capacity = some 0 → j'.entries = []

variable (j : Journal) (e : Entry)

/-- Without a capacity nothing gives way. -/
theorem entries_push_of_none (h : j.capacity = none) : (j.push e).entries = j.entries ++ [e] := by
  simp only [push, h, Option.elim_none, List.drop_zero]

/-- With a capacity of zero nothing is kept. -/
theorem entries_push_of_zero (h : j.capacity = some 0) : (j.push e).entries = [] := by
  simp only [push, h, Option.elim_some, Nat.sub_zero, List.drop_length]

/-- With room for more than one entry, the latest of the older ones stay before the new one. -/
theorem entries_push_of_succ {most : Nat} (h : j.capacity = some (most + 1)) :
    (j.push e).entries = j.entries.drop (j.entries.length - most) ++ [e] := by
  simp only [push, h, Option.elim_some, List.length_append, List.length_singleton,
    Nat.add_sub_add_right]
  exact List.drop_append_of_le_length (Nat.sub_le _ _)

/-- A push is how a journal takes an entry, whatever its capacity. -/
theorem takes_push : j.Takes e (j.push e) where
  capacity := rfl
  last hroom := by
    cases hc : j.capacity with
    | none => exact ⟨[], j.entries, rfl, entries_push_of_none j e hc, Or.inl rfl⟩
    | some n =>
      obtain _ | most := n
      · exact absurd hc hroom
      · refine ⟨_, _, (List.take_append_drop _ _).symm, entries_push_of_succ j e hc, ?_⟩
        -- If all of the older ones find room, the part before them is empty.
        rcases Nat.le_total j.entries.length most with hle | hle
        · rw [Nat.sub_eq_zero_of_le hle]
          exact Or.inl rfl
        · rw [List.length_drop, Nat.sub_sub_self hle]
          exact Or.inr rfl
  noRoom := entries_push_of_zero j e

end TreeShell.Journal
