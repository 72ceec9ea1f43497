import TreeShell.Proofs.Session.Pipes

/-!
# The streams of a line

A line opens streams of its own, and writes to no others: two that lead to the display, and after
these the inputs and pipes of its stages and the files of their redirections.
-/

namespace TreeShell

/-! ## Streams from a number on -/

namespace Pool

variable {p q : Pool} {n first : Nat}

/-- A number that is not yet given comes to no end. -/
theorem endOf_of_next_le (h : p.next ≤ n) : p.endOf n = .nowhere := by
  have hnone : p.streams[n]? = none := List.getElem?_eq_none h
  rw [endOf]
  cases p.next with
  | zero => rfl
  | succ fuel => rw [route, hnone]

/-- A stream with an end where texts stay keeps that. -/
theorem GrowsTo.takes_endOf (h : p.GrowsTo q) (hn : p.Takes (p.endOf n)) :
    q.Takes (q.endOf n) := by
  rw [h.endOf_eq hn.ne_nowhere]
  exact h.takes hn

/-- A stream that keeps takes what is written to it. -/
theorem Keeps.takes_endOf (h : p.Keeps n) : p.Takes (p.endOf n) := by
  rw [h.endOf_eq]
  exact h.takes

/-- All streams from a number on come to an end, and to none of some ends. -/
def AvoidsFrom (p : Pool) (first : Nat) (bad : End → Prop) : Prop :=
  ∀ n, first ≤ n → n < p.next → p.endOf n ≠ .nowhere ∧ ¬ bad (p.endOf n)

variable {bad : End → Prop}

/-- No number from there on is that of a stream that comes to one of these ends. -/
theorem AvoidsFrom.not_bad (h : p.AvoidsFrom first bad) (hbad : ¬ bad .nowhere)
    (hn : first ≤ n) : ¬ bad (p.endOf n) := by
  by_cases hnext : n < p.next
  · exact (h n hn hnext).2
  · rwa [endOf_of_next_le (Nat.le_of_not_lt hnext)]

/-- Streams go on avoiding some ends while the pool grows, if the new ones do. -/
theorem GrowsTo.avoidsFrom (h : p.GrowsTo q) (hp : p.AvoidsFrom first bad)
    (hnew : ∀ n, p.next ≤ n → n < q.next → q.endOf n ≠ .nowhere ∧ ¬ bad (q.endOf n)) :
    q.AvoidsFrom first bad := by
  intro n hn hnext
  by_cases hold : n < p.next
  · rw [h.endOf_eq (hp n hn hold).1]
    exact hp n hn hold
  · exact hnew n (Nat.le_of_not_lt hold) hnext

/-- No stream is opened. -/
theorem GrowsTo.avoidsFrom_of_next (h : p.GrowsTo q) (hnext : q.next = p.next)
    (hp : p.AvoidsFrom first bad) : q.AvoidsFrom first bad :=
  h.avoidsFrom hp fun _ hn hlt => absurd (hnext ▸ hlt) (Nat.not_lt.mpr hn)

/-- A write gives no number. -/
theorem next_write (p : Pool) (n : Nat) (text : String) : (p.write n text).next = p.next := by
  unfold write
  split
  · exact List.length_modify _ _ _
  · rfl
  · rfl
  · rfl

/-- Reading a stream gives no number. -/
theorem next_read (p : Pool) (n : Nat) : (p.read n).2.next = p.next := by
  unfold read
  split
  · rfl
  · exact List.length_modify _ _ _

/-- A new stream takes the next number. -/
theorem next_append (p : Pool) (s : Stream) :
    next { p with streams := p.streams ++ [s] } = p.next + 1 := by
  rw [next, List.length_append]
  rfl

/-- A stream that leads to a place takes the next number. -/
theorem next_add (p : Pool) (destination : Destination) :
    (p.add destination).1.next = p.next + 1 :=
  p.next_append _

/-- A stream that keeps a text takes the next number. -/
theorem next_addKeeping (p : Pool) (text : String) : (p.addKeeping text).1.next = p.next + 1 :=
  p.next_append _

/-- A stream is opened. -/
theorem AvoidsFrom.append (h : p.AvoidsFrom first bad) {s : Stream} {e : End}
    (hend : endOf { p with streams := p.streams ++ [s] } p.next = e) (hne : e ≠ .nowhere)
    (hbad : ¬ bad e) : AvoidsFrom { p with streams := p.streams ++ [s] } first bad := by
  refine (p.growsTo_append s).avoidsFrom h fun n hn hlt => ?_
  rw [next_append] at hlt
  obtain rfl : n = p.next := by omega
  rw [hend]
  exact ⟨hne, hbad⟩

/-- The stream that is opened last. -/
theorem getElem?_next (p : Pool) (s : Stream) : (p.streams ++ [s])[p.next]? = some s := by
  rw [next, List.getElem?_concat_length]

/-- A new stream that keeps avoids the ends if it is none of them. -/
theorem AvoidsFrom.addKeeping (h : p.AvoidsFrom first bad) (hbad : ¬ bad (.keeper p.next))
    (text : String) : (p.addKeeping text).1.AvoidsFrom first bad :=
  h.append ((endOf_of_stream (p.getElem?_next ⟨.kept, text⟩)).1 rfl) End.noConfusion hbad

/-- A new stream to a file avoids the ends if the file is none of them. -/
theorem AvoidsFrom.addFile (h : p.AvoidsFrom first bad) {path cwd : String}
    (hbad : ¬ bad (.file path cwd)) : (p.add (.file path cwd)).1.AvoidsFrom first bad :=
  h.append ((endOf_of_stream (p.getElem?_next ⟨.file path cwd, ""⟩)).2 path cwd rfl)
    End.noConfusion hbad

/-- A new stream to another one avoids the ends if the other one does. -/
theorem AvoidsFrom.addStream (h : p.AvoidsFrom first bad) (hn : p.endOf n ≠ .nowhere)
    (hbad : ¬ bad (p.endOf n)) : (p.add (.stream n)).1.AvoidsFrom first bad :=
  h.append (endOf_add_stream hn) hn hbad

end Pool

/-! ## Stages -/

namespace Redirection

/-- The streams of a stage that is ready are those that it starts with, and such as are opened for
it. -/
theorem get_ends_of_connectAll {rs : List Redirection} {defaults : Ends} {cwd : String}
    {w w' : Wiring} {table : Table} (hw : w.volume.tree.WellFormed)
    (h : connectAll cwd rs (Table.ofEnds defaults) w = (.ok table, w')) (k : Fin 3) :
    (∃ k', (table.ends defaults).get k = defaults.get k') ∨
      w.pool.next ≤ (table.ends defaults).get k := by
  obtain ⟨b, -, hb⟩ := (Stage.ready_of_connectAll hw h).bound k
  rw [hb]
  cases b with
  | standard k' => exact Or.inl ⟨k', rfl⟩
  | opened i => exact Or.inr (Nat.le_add_right _ _)

end Redirection

namespace Visit

variable {v : Visit} {first : Nat}

/-- All streams of a stage come at a number or after it. -/
structure StartsFrom (v : Visit) (first : Nat) : Prop where
  defaults : ∀ k, first ≤ v.defaults.get k
  next : first ≤ v.job.pool.next

/-- The ends of a stage are new streams if all that it starts from are. -/
theorem StartsFrom.ends (h : v.StartsFrom first) (hv : v.job.session.Sound) {stage : Stage}
    {w : Wiring}
    (hready : Stage.resolve v.command v.defaults v.job.session.cwd v.job.wiring = (.ok stage, w))
    (k : Fin 3) : first ≤ stage.ends.get k := by
  obtain ⟨parts, table, -, hconnect, rfl⟩ := Stage.resolve_eq_ok hready
  rcases Redirection.get_ends_of_connectAll hv.wellFormed hconnect k with ⟨k', hk⟩ | hk
  · rw [hk]
    exact h.defaults k'
  · exact h.next.trans hk

/-- A stage writes to no other streams. -/
theorem StartsFrom.le_of_write (h : v.StartsFrom first) (hv : v.job.session.Sound) {m : Nat}
    {text : String} (hm : v.MayDo (.write m text)) : first ≤ m := by
  cases hm with
  | opens hm => exact hm.elim
  | reports hm =>
    rcases hm with rfl | ⟨stage, w, hready, rfl⟩
    · exact h.defaults 2
    · exact h.ends hv hready 2
  | command hready hname hload hc hm =>
    rcases hm with rfl | rfl
    · exact h.ends hv hready 1
    · exact h.ends hv hready 2

/-- A stage reads from no other streams. -/
theorem StartsFrom.le_of_read (h : v.StartsFrom first) (hv : v.job.session.Sound) {m : Nat}
    (hm : v.MayDo (.read m)) : first ≤ m := by
  cases hm with
  | opens hm => exact hm.elim
  | reports hm => exact hm.elim
  | command hready hname hload hc hm =>
    rw [hm.1]
    exact h.ends hv hready 0

end Visit

/-! ## Lines -/

namespace Job

variable {output errors : Nat} {piped : String} {commands : List String} {j : Job} {v : Visit}

/-- The stages of a line come one after another: what is kept from stage to stage holds when a stage
starts, and to run the stages up to this one, and any others behind it, is to run this one and those
from there. -/
theorem exists_stage {P : Job → Prop}
    (hstep : ∀ j₀ piped₀ command redirected j', P j₀ →
      (j₀.visit errors piped₀ command).run = (.ok (Action.success, redirected), j') →
        P ((j₀.visit errors piped₀ command).handOn redirected j').2)
    (hj : P j) {k : Nat} (hv : (j.visits output errors piped commands)[k]? = some v) :
    ∃ j₀ piped₀ command, P j₀ ∧
      (j₀.visits output errors piped₀ (command :: commands.drop (k + 1)))[0]? = some v ∧
        ∀ index later, runStages output errors index piped (commands.take (k + 1) ++ later) j =
          runStages output errors (index + k) piped₀ (command :: later) j₀ := by
  induction k generalizing piped j commands with
  | zero =>
    cases commands with
    | nil => cases hv
    | cons command rest => exact ⟨j, piped, command, hj, hv, fun _ _ => rfl⟩
  | succ k ih =>
    match commands with
    | [] => cases hv
    | [_] => cases hv
    | command :: next :: rest =>
      obtain ⟨redirected, j', hrun, hrest⟩ := visits_next_getElem?.mp hv
      obtain ⟨j₀, piped₀, command₀, hj₀, hv₀, hrunStages⟩ :=
        ih (hstep j piped command redirected j' hj hrun) hrest
      refine ⟨j₀, piped₀, command₀, hj₀, hv₀, fun index later => ?_⟩
      have hnext : (command :: next :: rest).take (k + 1 + 1) ++ later =
          command :: next :: (rest.take k ++ later) := rfl
      rw [hnext, runStages_next, hrun]
      dsimp only
      rw [if_neg (not_not.mpr rfl), Nat.add_comm k 1, ← Nat.add_assoc]
      exact hrunStages (index + 1) later

/-- Each stage starts with an input, with its errors where those of the line go, and with a pipe as
its output, or that of the line if it is the last. -/
theorem visits_cons_getElem? {command : String} {rest : List String} :
    (j.visits output errors piped (command :: rest))[0]? =
      some (if rest = [] then j.lastVisit output errors piped command
        else j.visit errors piped command) := by
  cases rest with
  | nil => rfl
  | cons next rest =>
    rw [visits, if_neg (List.cons_ne_nil next rest)]
    rfl

/-- What holds when a line starts and goes on from stage to stage holds before each stage that is
visited. -/
theorem exists_start {P : Job → Prop}
    (hstep : ∀ j₀ piped₀ command redirected j', P j₀ →
      (j₀.visit errors piped₀ command).run = (.ok (Action.success, redirected), j') →
        P ((j₀.visit errors piped₀ command).handOn redirected j').2)
    (hj : P j) (hv : v ∈ j.visits output errors piped commands) :
    ∃ j₀ piped₀ command, P j₀ ∧
      (v = j₀.lastVisit output errors piped₀ command ∨ v = j₀.visit errors piped₀ command) := by
  obtain ⟨k, hk⟩ := List.mem_iff_getElem?.mp hv
  obtain ⟨j₀, piped₀, command, hj₀, hv₀, -⟩ := exists_stage hstep hj hk
  rw [visits_cons_getElem?, Option.some.injEq] at hv₀
  refine ⟨j₀, piped₀, command, hj₀, ?_⟩
  split at hv₀
  · exact Or.inl hv₀.symm
  · exact Or.inr hv₀.symm

/-- From stage to stage a line does nothing but effects that write nothing but texts. -/
theorem steps_next {redirected : Bool} {j' : Job} {command : String} (hj : j.session.Sound)
    (hrun : (j.visit errors piped command).run = (.ok (Action.success, redirected), j')) :
    Steps Effect.Plain j ((j.visit errors piped command).handOn redirected j').2 := by
  have hfirst := (j.steps_visit errors piped command).mono fun _ => Effect.Between.plain
  have hsteps := (Visit.steps_run _ (hfirst.sound hj)).mono fun _ => Job.StageMayDo.plain
  rw [hrun] at hsteps
  exact (hfirst.trans hsteps).trans ((steps_handOn _ redirected j').mono fun _ =>
    Effect.Between.plain)

/-- Each stage that is visited starts from a job to which only plain things were done. -/
theorem exists_of_mem_visits (hj : j.session.Sound)
    (hv : v ∈ j.visits output errors piped commands) :
    ∃ j₀ piped₀ command, Steps Effect.Plain j j₀ ∧
      (v = j₀.lastVisit output errors piped₀ command ∨ v = j₀.visit errors piped₀ command) :=
  exists_start (P := fun j₀ => Steps Effect.Plain j j₀)
    (fun _ _ _ _ _ hcome hrun => hcome.trans (steps_next (hcome.sound hj) hrun)) (.refl j) hv

/-- A stage starts with streams from a number on, if the line has opened those before it. -/
theorem startsFrom_visit {first : Nat} {command : String} (hnext : first ≤ j.pool.next)
    (herr : first ≤ errors) : (j.visit errors piped command).StartsFrom first := by
  have hinput : (j.addKeeping piped).1.pool.next = j.pool.next + 1 := j.pool.next_addKeeping piped
  have hpipe : ((j.addKeeping piped).1.addKeeping "").1.pool.next = j.pool.next + 1 + 1 := by
    rw [← hinput]
    exact Pool.next_addKeeping _ ""
  refine ⟨fun k => ?_, ?_⟩
  · fin_cases k
    · exact hnext
    · change first ≤ (j.addKeeping piped).1.pool.next
      omega
    · exact herr
  · rw [visit, hpipe]
    omega

/-- The last stage starts from streams that are new if the line does. -/
theorem startsFrom_lastVisit {first : Nat} {command : String} (hnext : first ≤ j.pool.next)
    (hout : first ≤ output) (herr : first ≤ errors) :
    (j.lastVisit output errors piped command).StartsFrom first := by
  have hinput : (j.addKeeping piped).1.pool.next = j.pool.next + 1 := j.pool.next_addKeeping piped
  refine ⟨fun k => ?_, ?_⟩
  · fin_cases k
    · exact hnext
    · exact hout
    · exact herr
  · rw [lastVisit, hinput]
    omega

/-- Each stage that is visited starts from streams that are new if the line does. -/
theorem startsFrom_of_mem_visits {first : Nat} (hj : j.session.Sound)
    (hv : v ∈ j.visits output errors piped commands) (hnext : first ≤ j.pool.next)
    (hout : first ≤ output) (herr : first ≤ errors) : v.StartsFrom first := by
  obtain ⟨j₀, piped₀, command, hcome, hvisit⟩ := exists_of_mem_visits hj hv
  have hfirst : first ≤ j₀.pool.next := hnext.trans hcome.pool.next_le
  rcases hvisit with rfl | rfl
  · exact startsFrom_lastVisit hfirst hout herr
  · exact startsFrom_visit hfirst herr

/-- The streams that a stage starts with come to ends where texts stay, if those of the line do. -/
theorem takes_of_mem_visits (hj : j.session.Sound)
    (hv : v ∈ j.visits output errors piped commands) (hout : j.pool.Takes (j.pool.endOf output))
    (herr : j.pool.Takes (j.pool.endOf errors)) (k : Fin 3) :
    v.job.pool.Takes (v.job.pool.endOf (v.defaults.get k)) := by
  obtain ⟨j₀, piped₀, command, hcome, hvisit⟩ := exists_of_mem_visits hj hv
  obtain ⟨hinput, -⟩ := j₀.keeps_addKeeping piped₀
  rcases hvisit with rfl | rfl
  · have hgrows := hcome.pool.trans (j₀.steps_lastVisit output errors piped₀ command).pool
    fin_cases k
    · exact hinput.takes_endOf
    · exact hgrows.takes_endOf hout
    · exact hgrows.takes_endOf herr
  · have hgrows := hcome.pool.trans (j₀.steps_visit errors piped₀ command).pool
    have hpipe := steps_addKeeping (j₀.addKeeping piped₀).1 ""
    fin_cases k
    · exact (hpipe.pool.keeps hinput).takes_endOf
    · exact (keeps_addKeeping (j₀.addKeeping piped₀).1 "").1.takes_endOf
    · exact hgrows.takes_endOf herr

end Job

namespace Session

variable {s : Session} {line : String} {d : Display}

/-- Each stage of a line starts from streams that the display does not know. -/
theorem startsFrom_of_mem_visits (h : s.Sound) {v : Visit} (hv : v ∈ s.visits line d) :
    v.StartsFrom d.pool.next := by
  rw [visits_eq] at hv
  have hout := d.pool.next_add (.stream d.output)
  have herr := (d.pool.add (.stream d.output)).1.next_add (.stream d.errors)
  refine Job.startsFrom_of_mem_visits (sound_firstJob h line d) hv ?_ (Nat.le_refl _) ?_
  · rw [firstJob, herr, hout]
    omega
  · rw [hout]
    omega

/-- The streams that a stage starts with lead into no file, if those of the display do not. -/
theorem takes_of_mem_visits (h : s.Sound) (hout : d.pool.Takes (d.pool.endOf d.output))
    {v : Visit} (hv : v ∈ s.visits line d) (k : Fin 3) :
    v.job.pool.Takes (v.job.pool.endOf (v.defaults.get k)) := by
  rw [visits_eq] at hv
  have hgrows := d.pool.growsTo_add (.stream d.output)
  have hfirst : (s.firstJob line d).pool.Takes ((s.firstJob line d).pool.endOf d.pool.next) := by
    refine (Pool.growsTo_add _ (.stream d.errors)).takes_endOf ?_
    rw [Pool.endOf_add_stream hout.ne_nowhere]
    exact hgrows.takes hout
  obtain ⟨hend, htakes⟩ := endOf_errors_of_growsTo (Pool.GrowsTo.refl (s.firstJob line d).pool)
  rw [← hend] at htakes
  exact Job.takes_of_mem_visits (sound_firstJob h line d) hv hfirst htakes k

/-- The streams that a line starts with come to none of some ends, if those of the display do
not. -/
theorem avoidsFrom_firstJob {bad : Pool.End → Prop} (hout : d.pool.Takes (d.pool.endOf d.output))
    (hbad : ¬ bad (d.pool.endOf d.output)) (hbad' : ¬ bad (d.pool.endOf d.errors)) :
    (s.firstJob line d).pool.AvoidsFrom d.pool.next bad := by
  have hnone : d.pool.AvoidsFrom d.pool.next bad := fun n hn hlt =>
    absurd hlt (Nat.not_lt.mpr hn)
  have hgrows := d.pool.growsTo_add (.stream d.output)
  have hend := hgrows.endOf_eq d.takes.ne_nowhere
  refine (hnone.addStream hout.ne_nowhere hbad).addStream ?_ ?_
  · rw [hend]
    exact d.takes.ne_nowhere
  · rwa [hend]

end Session

end TreeShell
