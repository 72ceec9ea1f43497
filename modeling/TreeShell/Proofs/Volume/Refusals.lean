import TreeShell.Proofs.Volume.Saving

/-!
# Refused requests

A request that is refused leaves no trace: no inode is added, taken out or changed, no number is
used up, nothing is saved, and nothing is noted.
-/

namespace TreeShell.Volume

variable {v : Volume}

/-- An edit that is refused leaves the volume as it was. -/
theorem perform_eq_of_error (h : v.tree.WellFormed) {cwd : String} {e : Edit} {refusal : PathError}
    (hr : (v.perform cwd e).1 = .error refusal) : (v.perform cwd e).2 = v := by
  have ho := Tree.outcome_perform v.clock cwd h e
  generalize hc : e.perform v.clock cwd v.tree = change at ho
  cases ho with
  | refused hp href => rw [perform_of_refused hc]
  | unchanged hp hi =>
    rw [perform_of_unchanged hc] at hr
    cases hr
  | changed hp hi hw hm =>
    rw [perform_of_changed hc] at hr
    cases hr

end TreeShell.Volume
