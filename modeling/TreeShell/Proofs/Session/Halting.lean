import TreeShell.Proofs.Session.TwinStages

/-!
# Lines that end at a stage

The first stage that fails ends its line: nothing is done after it, whatever stages would follow.
The line comes to the same as if the stage were its last, but for what the stage has written to its
output, unless it reads this back: with stages behind it this is in a pipe, without them it is at
the output of the line. A line of which no stage fails ends with success, and nothing is heard at
its output but what comes there in its last stage.
-/

namespace TreeShell

open Pool

/-! ## Ends where nothing comes -/

/-- Whether an effect writes to no stream, and reads from none, that comes before a number. -/
def Effect.From (first : Nat) : Effect → Prop
  | .write n _ | .read n => first ≤ n
  | _ => True

/-- Texts stay at an end where one is heard, and no stream from a number on leads there. -/
structure Pool.Spares (p : Pool) (first : Nat) (e : End) (text : String) : Prop where
  avoids : p.AvoidsFrom first (· = e)
  takes : p.Takes e
  old : ∀ n, e = .keeper n → n < first
  heard : p.heard e = text

/-- What uses no streams before a number changes nothing of what is heard there. -/
theorem Effect.From.spares {e : Effect} {first : Nat} (he : e.From first) {j : Job} {outlet : End}
    {text : String} (h : j.pool.Spares first outlet text) :
    (e.apply j).pool.Spares first outlet text := by
  have hgrows := e.pool_apply j
  have htakes := hgrows.takes h.takes
  have hnowhere : (End.nowhere : End) ≠ outlet := fun hn => h.takes.ne_nowhere hn.symm
  rcases e.pool_cases j with hsame | ⟨n, text, rfl, hpool⟩ | ⟨n, rfl, hpool⟩ | ⟨s, hs, hpool⟩
  · rwa [hsame]
  · have hne : j.pool.endOf n ≠ outlet := h.avoids.not_bad hnowhere he
    rw [hpool] at hgrows htakes ⊢
    exact ⟨hgrows.avoidsFrom_of_next (j.pool.next_write n text) h.avoids, htakes, h.old,
      (heard_write_elsewhere hne).trans h.heard⟩
  · rw [hpool] at hgrows htakes ⊢
    refine ⟨hgrows.avoidsFrom_of_next (j.pool.next_read n) h.avoids, htakes, h.old, ?_⟩
    rw [heard_read_eq, if_neg fun hn => Nat.not_lt.mpr he (h.old n hn), h.heard]
  · have hlast := j.pool.getElem?_next s
    have hnext : outlet ≠ .keeper j.pool.next := by
      rintro rfl
      exact Nat.lt_irrefl _ h.takes
    rw [hpool] at htakes ⊢
    refine ⟨?_, htakes, h.old, by rw [heard_append_eq, if_neg hnext, h.heard]⟩
    rcases hs with hkept | ⟨path, cwd, hfile⟩
    · exact h.avoids.append ((endOf_of_stream hlast).1 hkept) End.noConfusion hnext.symm
    · refine h.avoids.append ((endOf_of_stream hlast).2 path cwd hfile) End.noConfusion ?_
      rintro rfl
      exact h.takes

namespace Job

variable {output errors : Nat} {outlet reports : End} {heard piped command : String} {j j' : Job}
  {redirected : Bool} {code : Int}

/-- What holds of a line from its beginning until its last stage runs: its output leads to an outlet
where nothing comes, for no stage uses the stream for errors or one after it to write there, and its
errors lead to another end. -/
structure Underway (output errors : Nat) (outlet reports : End) (heard : String) (j : Job) :
    Prop where
  sound : j.session.Sound
  toOutlet : j.pool.Hollow output ∧ j.pool.endOf output = outlet
  toReports : j.pool.Hollow errors ∧ j.pool.endOf errors = reports ∧ j.pool.Takes reports
  apart : reports ≠ outlet
  spares : j.pool.Spares errors outlet heard

namespace Underway

/-- An effect keeps a line underway, if it uses none of the streams before the one for errors. -/
theorem apply (h : Underway output errors outlet reports heard j) {e : Effect} (hplain : e.Plain)
    (he : e.From errors) : Underway output errors outlet reports heard (e.apply j) := by
  obtain ⟨hhollow, hout⟩ := h.toOutlet
  obtain ⟨hhollow', hrep, htakes⟩ := h.toReports
  have hgrows := e.pool_apply j
  exact ⟨(Steps.single hplain j).sound h.sound,
    ⟨hhollow.apply e, (hgrows.endOf_eq (hout ▸ h.spares.takes.ne_nowhere)).trans hout⟩,
    ⟨hhollow'.apply e, (hgrows.endOf_eq (hrep ▸ htakes.ne_nowhere)).trans hrep,
      hgrows.takes htakes⟩, h.apart, he.spares h.spares⟩

theorem steps (h : Underway output errors outlet reports heard j)
    (hsteps : Steps (fun e => e.Plain ∧ e.From errors) j j') :
    Underway output errors outlet reports heard j' :=
  hsteps.keeps h fun _ _ he hk => hk.apply he.1 he.2

theorem addKeeping (h : Underway output errors outlet reports heard j) (text : String) :
    Underway output errors outlet reports heard (j.addKeeping text).1 :=
  h.apply (e := .openKeeping text) trivial trivial

theorem startsFrom (h : Underway output errors outlet reports heard j) (piped command : String) :
    (j.visit errors piped command).StartsFrom errors :=
  startsFrom_visit (Nat.le_of_lt h.toReports.1.lt_next) (Nat.le_refl _)

/-- A stage that others follow writes to no streams but the pipe, those for errors and such as it
opens. -/
theorem run (h : Underway output errors outlet reports heard j) (piped command : String) :
    Underway output errors outlet reports heard (j.visit errors piped command).run.2 := by
  have hstart : Underway output errors outlet reports heard (j.visit errors piped command).job :=
    (h.addKeeping piped).addKeeping ""
  have hfirst := h.startsFrom piped command
  refine hstart.steps ((Visit.steps_run _ hstart.sound).mono fun e he => ⟨he.plain, ?_⟩)
  cases e with
  | write n text => exact hfirst.le_of_write hstart.sound he
  | read n => exact hfirst.le_of_read hstart.sound he
  | _ => trivial

/-- A line that is underway is so when the next stage starts. -/
theorem next (h : Underway output errors outlet reports heard j)
    (hrun : (j.visit errors piped command).run = (.ok (Action.success, redirected), j')) :
    Underway output errors outlet reports heard
      ((j.visit errors piped command).handOn redirected j').2 := by
  have hafter := h.run piped command
  rw [hrun] at hafter
  cases redirected with
  | true => exact hafter
  | false => exact hafter.apply (e := .read _) trivial ((h.startsFrom piped command).defaults 1)

/-- The same stage with a pipe of its own, and with the output of the line instead. -/
theorem exists_twins (h : Underway output errors outlet reports heard j) (piped command : String) :
    ∃ σ : Splice, σ.reports = reports ∧ σ.outlet = outlet ∧
      σ.pipe = (j.visit errors piped command).defaults.output ∧ σ.errors = errors ∧
        (j.visit errors piped command).defaults.map σ.map =
            (j.lastVisit output errors piped command).defaults ∧
          σ.Twins (j.visit errors piped command).defaults (j.visit errors piped command).job
            (j.lastVisit output errors piped command).job := by
  have hstart := h.addKeeping piped
  obtain ⟨hkeeps, -⟩ := j.keeps_addKeeping piped
  have hnext : (j.addKeeping piped).1.pool.next = j.pool.next + 1 := j.pool.next_addKeeping piped
  obtain ⟨hhollow, hrep, htakes⟩ := hstart.toReports
  have hold : ∀ n, reports = .keeper n → n < (j.addKeeping piped).1.pool.next := by
    rintro n rfl
    exact htakes
  let σ : Splice := ⟨output, (j.addKeeping piped).1.pool.next, errors, outlet, reports,
    hhollow.lt_next, hold⟩
  have hinput : σ.map j.pool.next = j.pool.next := by
    refine σ.map_of_lt ?_
    change j.pool.next < (j.addKeeping piped).1.pool.next
    omega
  refine ⟨σ, rfl, rfl, rfl, rfl, ?_, ⟨rfl, σ.joins_pipe rfl hstart.toOutlet.1 hhollow
    ⟨hstart.toOutlet.2, hstart.spares.takes⟩ ⟨hrep, htakes⟩⟩, fun k => ?_⟩
  · rw [Ends.map]
    exact congr (congr (congrArg Ends.mk hinput) σ.map_pipe) σ.map_errors
  · fin_cases k
    · refine .kept (Nat.ne_of_lt hkeeps.takes) ((Pool.growsTo_addKeeping _ "").keeps hkeeps)
        ?_ ?_
      · exact hinput.symm ▸ hkeeps
      · intro he
        have hlt := h.spares.takes
        have hkeeper : outlet = .keeper j.pool.next := he.symm.trans (congrArg End.keeper hinput)
        rw [hkeeper] at hlt
        exact Nat.lt_irrefl _ hlt
    · exact .pipe
    · exact .errors

/-- The stage comes to the same code at the end of the line, and leaves the same session and the
same errors, unless it reads back what it has written. -/
theorem run_lastVisit (h : Underway output errors outlet reports heard j)
    (hrun : (j.visit errors piped command).run = (.ok (code, redirected), j'))
    (hreads : ¬ (j.visit errors piped command).ReadsBack) :
    ∃ k, (j.lastVisit output errors piped command).run = (.ok (code, redirected), k) ∧
      k.session = j'.session ∧ k.pool.heard reports = j'.pool.heard reports := by
  obtain ⟨σ, hreports, houtlet, hpipe, herrors, hdefaults, htwins⟩ := h.exists_twins piped command
  have hstart := (h.addKeeping piped).addKeeping ""
  have hdry := ((j.addKeeping piped).1.keeps_addKeeping "").2
  obtain ⟨hcode, hpaired⟩ := htwins.run hstart.sound hpipe.symm herrors.symm
    (by rw [hpipe]; exact hdry) hreads
  rw [hdefaults, hrun] at hcode hpaired
  have hheard := hpaired.joins.heard reports (hreports ▸ σ.reports_ne) (by
    rw [houtlet, ← hreports, σ.endMap_reports, hreports]
    exact h.apart)
  rw [← hreports, σ.endMap_reports] at hheard
  refine ⟨(j.lastVisit output errors piped command).run.2, Prod.ext hcode.symm rfl,
    hpaired.session, ?_⟩
  rw [← hreports]
  exact hheard.symm

end Underway

end Job

namespace Job

variable {output errors : Nat} {piped command : String} {j j' : Job} {redirected : Bool}
  {code : Int}

/-- A stage that fails ends what it is run in, and nothing depends on the stages behind it but that
there are some. -/
theorem exists_halt (output : Nat)
    (hrun : (j.visit errors piped command).run = (.ok (code, redirected), j'))
    (hfails : code ≠ Action.success) (index : Nat) :
    ∃ message, ∀ later, later ≠ [] →
      runStages output errors index piped (command :: later) j =
        (.ok code, j'.note .debug .shell message) := by
  refine ⟨"pipeline halted at stage " ++ toString (index + 1) ++ " (" ++ Text.quoted command ++
    "), exit " ++ toString code, fun later hlater => ?_⟩
  obtain ⟨next, rest, rfl⟩ := List.exists_cons_of_ne_nil hlater
  rw [runStages_next, hrun]
  exact if_pos hfails

/-- Where every stage succeeds, all of them are run. -/
theorem exists_of_success {commands : List String} (hj : j.session.Sound)
    (hall : ∀ v ∈ j.visits output errors piped commands, ∃ redirected j',
      v.run = (.ok (Action.success, redirected), j')) {k : Nat} (hk : k < commands.length) :
    ∃ v, (j.visits output errors piped commands)[k]? = some v := by
  induction k with
  | zero =>
    obtain ⟨command, rest, rfl⟩ := List.exists_cons_of_length_pos hk
    obtain ⟨v, hv, -⟩ := j.exists_first output errors piped command rest
    exact ⟨v, hv⟩
  | succ k ih =>
    obtain ⟨v, hv⟩ := ih (Nat.lt_of_succ_lt hk)
    obtain ⟨redirected, j', hrun⟩ := hall v (List.mem_of_getElem? hv)
    obtain ⟨-, v', hv', -⟩ := exists_next hj hv hk hrun
    exact ⟨v', hv'⟩

end Job

/-! ## Lines -/

namespace Visit

/-- The code that the stage exits with, unless the line breaks off at it. -/
def code? (v : Visit) : Option Int := v.run.1.toOption.map Prod.fst

/-- A stage that exits with a code has run to its end. -/
theorem exists_run_of_code {v : Visit} {code : Int} (h : v.code? = some code) :
    ∃ redirected j', v.run = (.ok (code, redirected), j') := by
  unfold code? at h
  generalize v.run = result at h ⊢
  obtain ⟨outcome, j'⟩ := result
  cases outcome with
  | error e => cases h
  | ok r =>
    cases h
    exact ⟨r.2, j', rfl⟩

end Visit

namespace Session

/-- Run some stages on a display, with a line in the history. -/
def runOnly (s : Session) (line : String) (d : Display) (commands : List String) :
    Except Breakdown Int × Job :=
  Job.runStages d.pool.next (d.pool.add (.stream d.output)).1.next 0 "" commands
    (s.firstJob line d)

/-- What a line comes to that is not at its last stage when one fails. -/
structure HaltsAt (s : Session) (line : String) (d : Display) (k : Nat) (v : Visit) (code : Int) :
    Prop where
  /-- The line ends with the code of the stage, and nothing is done after it but to note this. -/
  ends : ∃ message, s.runOn line d = (.ok code, v.run.2.note .debug .shell message)
  /-- So it comes to the same whatever stages would follow. -/
  blind : ∀ later, later ≠ [] →
    s.runOnly line d ((Line.stages (Text.trimmed line)).take (k + 1) ++ later) = s.runOn line d
  /-- Nothing is heard at the output of the line. -/
  silent : (s.runOn line d).2.pool.heard (d.pool.endOf d.output) =
    d.pool.heard (d.pool.endOf d.output)
  /-- Without the stages that would follow, the same is left of the session but for the note, and
  the same is heard of errors, if the stage does not read back what it has written. -/
  alone : ¬ v.ReadsBack →
    ∃ j, s.runOnly line d ((Line.stages (Text.trimmed line)).take (k + 1)) = (.ok code, j) ∧
      (∃ journal, (s.runOn line d).2.session =
        { j.session with volume := { j.session.volume with journal } }) ∧
        (s.runOn line d).2.pool.heard (d.pool.endOf d.errors) =
          j.pool.heard (d.pool.endOf d.errors)

/-- What a line comes to of which no stage fails. -/
structure Completes (s : Session) (line : String) (d : Display) : Prop where
  code : (s.runOn line d).1 = .ok Action.success
  /-- The line comes to every stage. -/
  runs : ∀ k < (Line.stages (Text.trimmed line)).length, ∃ v, (s.visits line d)[k]? = some v
  /-- Nothing is heard at the output before the last stage, and nothing is done after it. -/
  last : ∀ k v, (s.visits line d)[k]? = some v →
    k + 1 = (Line.stages (Text.trimmed line)).length →
      v.job.pool.heard (d.pool.endOf d.output) = d.pool.heard (d.pool.endOf d.output) ∧
        (s.runOn line d).2 = v.run.2
  /-- Without any stage nothing is heard at all. -/
  bare : Line.stages (Text.trimmed line) = [] →
    (s.runOn line d).2.pool.heard (d.pool.endOf d.output) =
      d.pool.heard (d.pool.endOf d.output)

variable {s : Session} {line : String} {d : Display} {k : Nat} {v : Visit} {code : Int}

/-- A line is run as its stages. -/
theorem runOn_eq_runOnly (s : Session) (line : String) (d : Display) :
    s.runOn line d = s.runOnly line d (Line.stages (Text.trimmed line)) :=
  rfl

/-- A line is underway when it begins, on a display that keeps output and errors apart. -/
theorem underway_firstJob (h : s.Sound) (hout : d.pool.Takes (d.pool.endOf d.output))
    (hapart : d.pool.endOf d.errors ≠ d.pool.endOf d.output) :
    Job.Underway d.pool.next (d.pool.add (.stream d.output)).1.next (d.pool.endOf d.output)
      (d.pool.endOf d.errors) (d.pool.heard (d.pool.endOf d.output)) (s.firstJob line d) := by
  have hgrows : d.pool.GrowsTo (d.pool.add (.stream d.output)).1 := d.pool.growsTo_add _
  have hgrows' : (d.pool.add (.stream d.output)).1.GrowsTo (s.firstJob line d).pool :=
    Pool.growsTo_add _ _
  have hnext : (d.pool.add (.stream d.output)).1.next = d.pool.next + 1 := d.pool.next_add _
  have hfirst : (d.pool.add (.stream d.output)).1.endOf d.pool.next = d.pool.endOf d.output :=
    endOf_add_stream hout.ne_nowhere
  have herrors : (d.pool.add (.stream d.output)).1.endOf d.errors = d.pool.endOf d.errors :=
    hgrows.endOf_eq d.takes.ne_nowhere
  have hold : ∀ n, d.pool.endOf d.output = .keeper n → n < d.pool.next := fun n hn => by
    rw [hn] at hout
    exact hout
  refine ⟨sound_firstJob h line d, ⟨(hollow_add_stream d.pool d.output).append _, ?_⟩,
    ⟨hollow_add_stream _ d.errors, endOf_errors_of_growsTo (.refl _)⟩, hapart, ?_,
    (hgrows.trans hgrows').takes hout, fun n hn => ?_, ?_⟩
  · rw [hgrows'.endOf_eq (hfirst ▸ hout.ne_nowhere), hfirst]
  · have hnone : (d.pool.add (.stream d.output)).1.AvoidsFrom
        (d.pool.add (.stream d.output)).1.next (· = d.pool.endOf d.output) :=
      fun n hn hlt => absurd hlt (Nat.not_lt.mpr hn)
    refine hnone.addStream (n := d.errors) ?_ ?_
    · rw [herrors]
      exact d.takes.ne_nowhere
    · rwa [herrors]
  · exact hnext ▸ Nat.lt_succ_of_lt (hold n hn)
  · refine (heard_append_eq _ _ _).trans ?_
    rw [if_neg fun he => ?_]
    · refine (heard_append_eq _ _ _).trans (if_neg fun he => ?_)
      exact Nat.lt_irrefl _ (hold _ he)
    · have hlt := hold _ he
      omega

/-- To run a line as far as a stage, and whatever would follow it, is to run this stage and what
follows when the line has come to it. -/
theorem exists_underway (h : s.Sound) (hout : d.pool.Takes (d.pool.endOf d.output))
    (hapart : d.pool.endOf d.errors ≠ d.pool.endOf d.output)
    (hv : (s.visits line d)[k]? = some v) :
    ∃ j piped command,
      j.Underway d.pool.next (d.pool.add (.stream d.output)).1.next (d.pool.endOf d.output)
        (d.pool.endOf d.errors) (d.pool.heard (d.pool.endOf d.output)) ∧
      v = (if (Line.stages (Text.trimmed line)).drop (k + 1) = [] then
          j.lastVisit d.pool.next (d.pool.add (.stream d.output)).1.next piped command
        else j.visit (d.pool.add (.stream d.output)).1.next piped command) ∧
      ∀ later, s.runOnly line d ((Line.stages (Text.trimmed line)).take (k + 1) ++ later) =
        Job.runStages d.pool.next (d.pool.add (.stream d.output)).1.next k piped
          (command :: later) j := by
  rw [visits_eq] at hv
  obtain ⟨j, piped, command, hj, hfirst, hrun⟩ := Job.exists_stage
    (fun _ _ _ _ _ hj hrun => hj.next hrun) (underway_firstJob h hout hapart) hv
  rw [Job.visits_cons_getElem?, Option.some.injEq] at hfirst
  refine ⟨j, piped, command, hj, hfirst.symm, fun later => ?_⟩
  rw [runOnly, hrun, Nat.zero_add]

/-- A line halts at the first stage that does not succeed. -/
theorem haltsAt_of_exits (h : s.Sound) (hout : d.pool.Takes (d.pool.endOf d.output))
    (hapart : d.pool.endOf d.errors ≠ d.pool.endOf d.output)
    (hv : (s.visits line d)[k]? = some v)
    (hk : k + 1 < (Line.stages (Text.trimmed line)).length) (hexits : v.code? = some code)
    (hfails : code ≠ Action.success) : s.HaltsAt line d k v code := by
  obtain ⟨redirected, j', hrun⟩ := Visit.exists_run_of_code hexits
  obtain ⟨j, piped, command, hj, hvisit, hrunOnly⟩ := exists_underway h hout hapart hv
  have hmore : (Line.stages (Text.trimmed line)).drop (k + 1) ≠ [] := by
    rw [ne_eq, List.drop_eq_nil_iff]
    omega
  rw [if_neg hmore] at hvisit
  subst hvisit
  have hafter := hj.run piped command
  obtain ⟨message, hmessage⟩ := Job.exists_halt d.pool.next hrun hfails k
  have hends := hrunOnly ((Line.stages (Text.trimmed line)).drop (k + 1))
  rw [List.take_append_drop, ← runOn_eq_runOnly, hmessage _ hmore] at hends
  rw [hrun] at hafter
  refine ⟨⟨message, by rw [hends, hrun]⟩, fun later hlater => ?_, ?_, fun hreads => ?_⟩
  · rw [hrunOnly, hmessage later hlater, hends]
  · rw [hends]
    exact hafter.spares.heard
  · obtain ⟨k', hlast, hsession, hheard⟩ := hj.run_lastVisit hrun hreads
    have halone := hrunOnly []
    rw [List.append_nil, Job.runStages_last, hlast] at halone
    rw [hends]
    refine ⟨k', halone, ?_, hheard.symm⟩
    rw [hsession]
    exact ⟨_, rfl⟩

/-- A line whose stages all succeed is completed. -/
theorem completes_of_success (h : s.Sound) (hout : d.pool.Takes (d.pool.endOf d.output))
    (hapart : d.pool.endOf d.errors ≠ d.pool.endOf d.output)
    (hall : ∀ v ∈ s.visits line d, v.code? = some Action.success) : s.Completes line d := by
  have hfirst : Job.Underway _ _ _ _ _ (s.firstJob line d) := underway_firstJob h hout hapart
  have hruns : ∀ k < (Line.stages (Text.trimmed line)).length,
      ∃ v, (s.visits line d)[k]? = some v := fun k hk => by
    rw [visits_eq] at hall ⊢
    exact Job.exists_of_success hfirst.sound (fun v hv => Visit.exists_run_of_code (hall v hv)) hk
  have hlast : ∀ k v, (s.visits line d)[k]? = some v →
      k + 1 = (Line.stages (Text.trimmed line)).length →
        v.job.pool.heard (d.pool.endOf d.output) = d.pool.heard (d.pool.endOf d.output) ∧
          s.runOn line d = (.ok Action.success, v.run.2) := by
    intro k v hv hk
    obtain ⟨redirected, j', hrun⟩ :=
      Visit.exists_run_of_code (hall v (List.mem_of_getElem? hv))
    obtain ⟨j, piped, command, hj, hvisit, hrunOnly⟩ := exists_underway h hout hapart hv
    have hnone : (Line.stages (Text.trimmed line)).drop (k + 1) = [] :=
      List.drop_eq_nil_of_le (Nat.le_of_eq hk.symm)
    rw [if_pos hnone] at hvisit
    subst hvisit
    have hends := hrunOnly []
    rw [List.append_nil, List.take_of_length_le (Nat.le_of_eq hk.symm), ← runOn_eq_runOnly,
      Job.runStages_last, hrun] at hends
    exact ⟨(hj.addKeeping piped).spares.heard, by rw [hends, hrun]⟩
  have hbare : Line.stages (Text.trimmed line) = [] →
      s.runOn line d = (.ok Action.success, s.firstJob line d) := fun hnone => by
    rw [runOn_eq, hnone, Job.runStages_nil]
  refine ⟨?_, hruns, fun k v hv hk => ⟨(hlast k v hv hk).1, by rw [(hlast k v hv hk).2]⟩,
    fun hnone => by rw [hbare hnone]; exact hfirst.spares.heard⟩
  cases hlength : (Line.stages (Text.trimmed line)).length with
  | zero => rw [hbare (List.length_eq_zero_iff.mp hlength)]
  | succ k =>
    obtain ⟨v, hv⟩ := hruns k (by omega)
    rw [(hlast k v hv hlength.symm).2]

/-- Whatever line is run by a session with the commands that every session has, on a display that
keeps its output and its errors apart and leads into no file: the first stage that fails ends it,
and if none does it ends with success. -/
theorem halts_or_completes (hw : s.volume.tree.WellFormed) (hr : s.registry = builtIns)
    (hout : d.pool.Takes (d.pool.endOf d.output))
    (hapart : d.pool.endOf d.errors ≠ d.pool.endOf d.output) :
    (∀ k v code, (s.visits line d)[k]? = some v →
        k + 1 < (Line.stages (Text.trimmed line)).length → v.code? = some code →
          code ≠ Action.success → s.HaltsAt line d k v code) ∧
      ((∀ v ∈ s.visits line d, v.code? = some Action.success) → s.Completes line d) := by
  have h : s.Sound := sound_of_builtIns hw hr
  exact ⟨fun k v code hv hk hexits hfails => haltsAt_of_exits h hout hapart hv hk hexits hfails,
    completes_of_success h hout hapart⟩

/-- After the usual boot, a line with a file that is not there ends at its first stage, and one that
hands a text on completes. -/
theorem halts_at_missing_file :
    ∃ s : Session, s.Reached ∧
      (∃ v, (s.visits "cat nope | echo hi > f" .apart)[0]? = some v ∧
        s.HaltsAt "cat nope | echo hi > f" .apart 0 v Action.failure) ∧
        s.Completes "echo hi | cat" .apart := by
  let s : Session := Boot.usualSession
  obtain ⟨hfails, hall⟩ :
      (s.visits "cat nope | echo hi > f" .apart)[0]?.bind Visit.code? = some Action.failure ∧
        ∀ v ∈ s.visits "echo hi | cat" .apart, v.code? = some Action.success := by
    decide +kernel
  obtain ⟨v, hv, hcode⟩ := Option.bind_eq_some_iff.mp hfails
  have hreached : s.Reached := .boot Boot.usual_eq
  have hapart : Display.apart.pool.endOf Display.apart.errors ≠
      Display.apart.pool.endOf Display.apart.output := by decide
  have hmain := fun line => @halts_or_completes s line .apart
    hreached.sound.wellFormed (Boot.registry_of_run Boot.usual_eq) Nat.zero_lt_two hapart
  refine ⟨s, hreached, ⟨v, hv, ?_⟩, ?_⟩
  · exact (hmain "cat nope | echo hi > f").1 0 v Action.failure hv (by decide +kernel) hcode
      (by decide)
  · exact (hmain "echo hi | cat").2 hall

/-- What a file holds, by a path in the working directory. -/
def textAt? (s : Session) (path : String) : Option String :=
  (s.volume.tree.content path s.cwd).toOption.map Json.plain

/-- A stage that reads back what it has written: with a stage behind it, it finds its complaint in
the pipe and puts it into a file; without, the complaint is at the output, and the file is empty. -/
theorem halts_otherwise_reading_back :
    ∃ s : Session, s.Reached ∧
      (s.visits "cat nope - 0<&1 2>&1 1>f | cat" .apart)[0]?.bind Visit.code? =
          some Action.failure ∧
        (s.runOn "cat nope - 0<&1 2>&1 1>f | cat" .apart).2.session.textAt? "f" =
            some "cat: nope: No such file or directory\n" ∧
          (s.runOnly "cat nope - 0<&1 2>&1 1>f | cat" .apart
            ((Line.stages "cat nope - 0<&1 2>&1 1>f | cat").take 1)).2.session.textAt? "f" =
              some "" := by
  refine ⟨Boot.usualSession, .boot Boot.usual_eq, ?_⟩
  decide +kernel

end Session

end TreeShell
