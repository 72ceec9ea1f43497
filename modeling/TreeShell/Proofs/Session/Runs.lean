import TreeShell.Proofs.Session.Lines

/-!
# Lines after lines

A session comes to another by running lines, one after another, as time passes. What every effect of
a line keeps of the volume is kept from the first session to the last.
-/

namespace TreeShell.Session

/-- A session comes to another by running lines, whose stages are all of some kind, whatever these
come to, and as time passes. -/
inductive ComesTo (visited : Visit → Prop) (s : Session) : Session → Prop where
  | start : ComesTo visited s s
  | line {s' : Session} (h : ComesTo visited s s') (line : String) (d : Display)
    (hvisits : ∀ v ∈ s'.visits line d, visited v) : ComesTo visited s (s'.runOn line d).2.session
  | clock {s' : Session} (h : ComesTo visited s s') (now : Int) : ComesTo visited s (s'.atTime now)

variable {visited : Visit → Prop} {s s' : Session}

/-- Lines that come to stages of one kind come to stages of a wider kind. -/
theorem ComesTo.mono {visited' : Visit → Prop} (h : s.ComesTo visited s')
    (hle : ∀ v, visited v → visited' v) : s.ComesTo visited' s' := by
  induction h with
  | start => exact .start
  | line _ line d hvisits ih => exact .line ih line d fun v hv => hle v (hvisits v hv)
  | clock _ now ih => exact .clock ih now

/-- A session that is come to from one that is reached is reached. -/
theorem ComesTo.reached (h : s.ComesTo visited s') (hs : s.Reached) : s'.Reached := by
  induction h with
  | start => exact hs
  | line _ line d _ ih => exact ih.line line d
  | clock _ now ih => exact ih.clock now

/-- What is kept by notes, by time and by edits that write nothing but texts and what files hold is
kept by lines. -/
theorem ComesTo.volume {P : Volume → Prop} (h : s.ComesTo visited s') (hs : s.Reached)
    (hstart : P s.volume) (hnote : ∀ v journal, P v → P { v with journal })
    (hclock : ∀ v clock, P v → P { v with clock })
    (hedit : ∀ v cwd e, e.WritesKnown v.tree.item? → P v → P (v.perform cwd e).2) :
    P s'.volume := by
  induction h with
  | start => exact hstart
  | @line s' h line d _ ih =>
    have hsound := (h.reached hs).sound
    have hsteps := plain_runOn hsound line d
    have hfirst : P (s'.firstJob line d).session.volume := by
      rw [firstJob, volume_remember]
      exact ih
    exact hsteps.volume hfirst hnote hedit
  | clock _ now ih => exact hclock _ now ih

end TreeShell.Session
