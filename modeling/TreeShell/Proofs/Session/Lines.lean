import TreeShell.Proofs.Boot
import TreeShell.Proofs.Session.Stages

/-!
# Lines that come to a code

A line is told by the stages it comes to, one after another. It ends with one of four codes just if
it stumbles at none of them, and a stage that cannot be read is then reported and ends it.
-/

namespace TreeShell

/-- A stage that a line comes to: what is run, with which streams, and the job then. -/
structure Visit where
  command : String
  defaults : Ends
  job : Job

namespace Visit

/-- Run the stage. -/
def run (v : Visit) : Except Breakdown (Int × Bool) × Job := v.job.runStage v.command v.defaults

/-- The line breaks off at the stage. -/
def Stumbles (v : Visit) : Prop := v.job.Stumbles v.command v.defaults

/-- What is done in the stage. -/
def MayDo (v : Visit) (e : Effect) : Prop := v.job.StageMayDo v.command v.defaults e

/-- A stage does only what its command may do. -/
theorem steps_run (v : Visit) (hv : v.job.session.Sound) : Steps v.MayDo v.job v.run.2 :=
  Job.steps_runStage v.command v.defaults hv

/-- A stage ends with one of the codes of a line, and it breaks off just if it stumbles. -/
theorem run_spec (v : Visit) (hv : v.job.session.Sound) :
    (∀ code b, v.run.1 = .ok (code, b) → IsLineCode code) ∧
      ((∃ b, v.run.1 = .error b) ↔ v.Stumbles) :=
  Job.runStage_spec v.command v.defaults hv

/-- What goes on to the next stage, and the job then. -/
def handOn (v : Visit) (redirected : Bool) (j : Job) : String × Job :=
  if redirected then ("", j) else j.read v.defaults.output

end Visit

namespace Job

variable {output errors : Nat} {piped : String} {j : Job}

/-- The visit to the last stage of a line. -/
def lastVisit (output errors : Nat) (piped command : String) (j : Job) : Visit :=
  ⟨j.session.expandAlias command, ⟨(j.addKeeping piped).2, output, errors⟩, (j.addKeeping piped).1⟩

/-- The visit to a stage that others follow. -/
def visit (errors : Nat) (piped command : String) (j : Job) : Visit :=
  ⟨j.session.expandAlias command,
    ⟨(j.addKeeping piped).2, ((j.addKeeping piped).1.addKeeping "").2, errors⟩,
    ((j.addKeeping piped).1.addKeeping "").1⟩

/-- The stages that a line comes to, in order. -/
def visits (output errors : Nat) : (piped : String) → List String → Job → List Visit
  | _, [], _ => []
  | piped, [command], j => [j.lastVisit output errors piped command]
  | piped, command :: next :: rest, j =>
    let v := j.visit errors piped command
    v ::
      match v.run with
      | (.ok (code, redirected), j') =>
        if code = Action.success then
          visits output errors (v.handOn redirected j').1 (next :: rest) (v.handOn redirected j').2
        else []
      | (.error _, _) => []

/-- A line without stages ends with success. -/
theorem runStages_nil {index : Nat} :
    runStages output errors index piped [] j = (.ok Action.success, j) := by
  unfold runStages
  rfl

/-- The last stage ends the line with its code. -/
theorem runStages_last {index : Nat} {command : String} :
    runStages output errors index piped [command] j =
      match (j.lastVisit output errors piped command).run with
      | (.error e, j') => (.error e, j')
      | (.ok (code, _), j') => (.ok code, j') := by
  unfold runStages
  rfl

/-- Another stage halts the line if it fails, and hands on to the next one if it does not. -/
theorem runStages_next {index : Nat} {command next : String} {rest : List String} :
    runStages output errors index piped (command :: next :: rest) j =
      match (j.visit errors piped command).run with
      | (.error e, j') => (.error e, j')
      | (.ok (code, redirected), j') =>
        if code ≠ Action.success then
          (.ok code,
            j'.note .debug .shell
              ("pipeline halted at stage " ++ toString (index + 1) ++ " (" ++ Text.quoted command ++
                "), exit " ++ toString code))
        else
          runStages output errors (index + 1)
            ((j.visit errors piped command).handOn redirected j').1 (next :: rest)
            ((j.visit errors piped command).handOn redirected j').2 := by
  cases hv : (j.visit errors piped command).run with
  | mk outcome j' =>
    rw [Visit.run, visit] at hv
    conv_lhs => unfold runStages
    dsimp only [addKeeping] at hv ⊢
    rw [hv]
    cases outcome with
    | error e => rfl
    | ok r =>
      obtain ⟨code, redirected⟩ := r
      cases redirected with
      | false => rfl
      | true => rfl

/-- The last stage is visited. -/
theorem mem_visits_last {command : String} {v : Visit} :
    v ∈ j.visits output errors piped [command] ↔ v = j.lastVisit output errors piped command := by
  unfold visits
  exact List.mem_singleton

/-- Another stage is visited, and those behind it are if it succeeds. -/
theorem mem_visits_next {command next : String} {rest : List String} {v : Visit} :
    v ∈ j.visits output errors piped (command :: next :: rest) ↔
      v = j.visit errors piped command ∨
        ∃ redirected j', (j.visit errors piped command).run =
            (.ok (Action.success, redirected), j') ∧
          v ∈ visits output errors ((j.visit errors piped command).handOn redirected j').1
            (next :: rest) ((j.visit errors piped command).handOn redirected j').2 := by
  rw [visits, List.mem_cons]
  cases (j.visit errors piped command).run with
  | mk outcome j' =>
    cases outcome with
    | error e => simp
    | ok r =>
      obtain ⟨code, redirected⟩ := r
      by_cases hzero : code = Action.success
      · simp [hzero]
      · simp [hzero]

/-! ## From stage to stage -/

end Job

/-- Whether an effect happens between the stages of a line: a stream is opened or read, or something
is noted. -/
def Effect.Between : Effect → Prop
  | .openKeeping _ | .read _ | .note .. => True
  | _ => False

/-- What is done between stages is plain. -/
theorem Effect.Between.plain {e : Effect} (h : e.Between) : e.Plain := by
  cases e with
  | edit cwd e => exact h.elim
  | _ => trivial

namespace Job

variable {output errors : Nat} {piped : String} {j : Job}

/-- To put in a stream is something done between stages. -/
theorem steps_addKeeping (j : Job) (text : String) :
    Steps Effect.Between j (j.addKeeping text).1 :=
  .single (e := .openKeeping text) trivial j

/-- All that prepares the last stage is done between stages. -/
theorem steps_lastVisit (j : Job) (output errors : Nat) (piped command : String) :
    Steps Effect.Between j (j.lastVisit output errors piped command).job :=
  j.steps_addKeeping piped

/-- All that prepares a stage before the last one is done between stages. -/
theorem steps_visit (j : Job) (errors : Nat) (piped command : String) :
    Steps Effect.Between j (j.visit errors piped command).job :=
  (j.steps_addKeeping piped).trans (steps_addKeeping _ "")

/-- To hand on to the next stage is done between stages. -/
theorem steps_handOn (v : Visit) (redirected : Bool) (j : Job) :
    Steps Effect.Between j (v.handOn redirected j).2 := by
  cases redirected with
  | true => exact .refl j
  | false => exact .single (e := .read v.defaults.output) trivial j

/-- To run stages, and to come to one of them, is to do what is done in them and between them. -/
theorem steps_runStages {allowed : Effect → Prop} (hbetween : ∀ e : Effect, e.Between → allowed e)
    (hplain : ∀ e, allowed e → e.Plain) (index : Nat) {commands : List String}
    (hj : j.session.Sound)
    (hvisits : ∀ v ∈ j.visits output errors piped commands, ∀ e, v.MayDo e → allowed e) :
    Steps allowed j (runStages output errors index piped commands j).2 ∧
      ∀ v ∈ j.visits output errors piped commands, Steps allowed j v.job := by
  induction commands generalizing index piped j with
  | nil =>
    rw [runStages_nil, visits]
    exact ⟨.refl j, fun v hv => by cases hv⟩
  | cons command rest ih =>
    cases rest with
    | nil =>
      have hfirst := (j.steps_lastVisit output errors piped command).mono hbetween
      have hsound := (hfirst.mono hplain).sound hj
      have hrun := (Visit.steps_run _ hsound).mono (hvisits _ (mem_visits_last.mpr rfl))
      refine ⟨?_, fun v hv => ?_⟩
      · rw [runStages_last]
        generalize (j.lastVisit output errors piped command).run = result at hrun
        obtain ⟨outcome, j'⟩ := result
        cases outcome with
        | error e => exact hfirst.trans hrun
        | ok r => exact hfirst.trans hrun
      · rw [mem_visits_last.mp hv]
        exact hfirst
    | cons next rest =>
      have hfirst := (j.steps_visit errors piped command).mono hbetween
      have hsound := (hfirst.mono hplain).sound hj
      have hrun := (Visit.steps_run _ hsound).mono (hvisits _ (mem_visits_next.mpr (Or.inl rfl)))
      -- what is left of the line, when this stage has succeeded
      have hrest : ∀ redirected j', (j.visit errors piped command).run =
          (.ok (Action.success, redirected), j') →
          Steps allowed j
              (runStages output errors (index + 1)
                ((j.visit errors piped command).handOn redirected j').1 (next :: rest)
                ((j.visit errors piped command).handOn redirected j').2).2 ∧
            ∀ v ∈ visits output errors ((j.visit errors piped command).handOn redirected j').1
              (next :: rest) ((j.visit errors piped command).handOn redirected j').2,
              Steps allowed j v.job := by
        intro redirected j' hr
        rw [hr] at hrun
        have hon := (hfirst.trans hrun).trans
          ((steps_handOn (j.visit errors piped command) redirected j').mono hbetween)
        obtain ⟨hlast, hlater⟩ := ih (index + 1) ((hon.mono hplain).sound hj) fun v hv =>
          hvisits v (mem_visits_next.mpr (Or.inr ⟨redirected, j', hr, hv⟩))
        exact ⟨hon.trans hlast, fun v hv => hon.trans (hlater v hv)⟩
      refine ⟨?_, fun v hv => ?_⟩
      · rw [runStages_next]
        cases hr : (j.visit errors piped command).run with
        | mk outcome j' =>
          rw [hr] at hrun
          cases outcome with
          | error e => exact hfirst.trans hrun
          | ok r =>
            obtain ⟨code, redirected⟩ := r
            by_cases hzero : code = Action.success
            · subst hzero
              dsimp only
              rw [if_neg (not_not.mpr rfl)]
              exact (hrest redirected j' hr).1
            · dsimp only
              rw [if_pos hzero]
              exact (hfirst.trans hrun).trans (.single (hbetween (.note _ _ _) trivial) j')
      · rcases mem_visits_next.mp hv with rfl | ⟨redirected, j', hr, hv⟩
        · exact hfirst
        · exact (hrest redirected j' hr).2 v hv

/-- What it is to run stages, in codes and in what the line breaks off at. -/
theorem runStages_spec (output errors index : Nat) (piped : String) (commands : List String)
    (hj : j.session.Sound) :
    (∀ code, (runStages output errors index piped commands j).1 = .ok code → IsLineCode code) ∧
      ((∃ b, (runStages output errors index piped commands j).1 = .error b) ↔
        ∃ v ∈ j.visits output errors piped commands, v.Stumbles) := by
  induction commands generalizing index piped j with
  | nil =>
    rw [runStages_nil, visits]
    exact ⟨by simp [IsLineCode, isExitCode_success], by simp⟩
  | cons command rest ih =>
    cases rest with
    | nil =>
      have hfirst := (j.steps_lastVisit output errors piped command).mono fun _ =>
        Effect.Between.plain
      obtain ⟨hcode, herror⟩ := Visit.run_spec _ (hfirst.sound hj)
      rw [runStages_last]
      simp only [mem_visits_last, exists_eq_left, ← herror]
      cases hr : (j.lastVisit output errors piped command).run with
      | mk outcome j' =>
        rw [hr] at hcode
        cases outcome with
        | error e => exact ⟨by simp, by simp⟩
        | ok r =>
          refine ⟨fun code h => ?_, by simp⟩
          cases h
          exact hcode r.1 r.2 rfl
    | cons next rest =>
      have hfirst := (j.steps_visit errors piped command).mono fun _ => Effect.Between.plain
      have hsound := hfirst.sound hj
      have hsteps := (Visit.steps_run _ hsound).mono fun _ => Job.StageMayDo.plain
      obtain ⟨hcode, herror⟩ := Visit.run_spec _ hsound
      rw [runStages_next, visits]
      simp only [List.mem_cons, exists_eq_or_imp, ← herror]
      cases hr : (j.visit errors piped command).run with
      | mk outcome j' =>
        rw [hr] at hsteps hcode
        cases outcome with
        | error e => exact ⟨by simp, by simp⟩
        | ok r =>
          obtain ⟨code, redirected⟩ := r
          by_cases hzero : code = Action.success
          · have hon := (hfirst.trans hsteps).trans
              ((steps_handOn (j.visit errors piped command) redirected j').mono fun _ =>
                Effect.Between.plain)
            obtain ⟨hcodes, herrors⟩ := ih (index + 1)
              ((j.visit errors piped command).handOn redirected j').1 (hon.sound hj)
            simp only [hzero, ne_eq, not_true, if_false, if_true, herrors]
            exact ⟨hcodes, by simp⟩
          · simp only [hzero, ne_eq, not_false_eq_true, if_true, if_false]
            refine ⟨fun code' h => ?_, by simp⟩
            cases h
            exact hcode code redirected rfl

/-! ## Every stage of a line -/

/-- A line comes to every stage by effects that write nothing but texts. -/
theorem steps_of_mem_visits {commands : List String} {v : Visit} (hj : j.session.Sound)
    (hv : v ∈ j.visits output errors piped commands) : Steps Effect.Plain j v.job :=
  (steps_runStages (fun _ => Effect.Between.plain) (fun _ he => he) 0 hj
    fun _ _ _ => Job.StageMayDo.plain).2 v hv

/-- All stages of a line report to the same stream. -/
theorem errors_of_mem_visits {commands : List String} {v : Visit}
    (hv : v ∈ j.visits output errors piped commands) : v.defaults.errors = errors := by
  induction commands generalizing piped j with
  | nil => cases hv
  | cons command rest ih =>
    cases rest with
    | nil =>
      rw [mem_visits_last.mp hv]
      rfl
    | cons next rest =>
      rcases mem_visits_next.mp hv with rfl | ⟨redirected, j', -, hrest⟩
      · rfl
      · exact ih hrest

/-- A stage that does not succeed ends the line, with its code or with what it breaks off at, and no
text is written after that. -/
theorem runStages_of_end (index : Nat) {commands : List String} {v : Visit}
    {outcome : Except Breakdown (Int × Bool)} {j' : Job}
    (hv : v ∈ j.visits output errors piped commands) (hrun : v.run = (outcome, j'))
    (hend : ∀ b, outcome ≠ .ok (Action.success, b)) :
    (runStages output errors index piped commands j).1 = outcome.map Prod.fst ∧
      (runStages output errors index piped commands j).2.pool = j'.pool := by
  induction commands generalizing index piped j with
  | nil => cases hv
  | cons command rest ih =>
    cases rest with
    | nil =>
      rw [runStages_last, ← mem_visits_last.mp hv, hrun]
      cases outcome with
      | error e => exact ⟨rfl, rfl⟩
      | ok r => exact ⟨rfl, rfl⟩
    | cons next rest =>
      rw [runStages_next]
      rcases mem_visits_next.mp hv with hv | ⟨redirected, j'', hzero, hrest⟩
      · rw [← hv, hrun]
        cases outcome with
        | error e => exact ⟨rfl, rfl⟩
        | ok r =>
          obtain ⟨code, redirected⟩ := r
          have hne : code ≠ Action.success := by
            rintro rfl
            exact hend redirected rfl
          dsimp only
          rw [if_pos hne]
          exact ⟨rfl, rfl⟩
      · rw [hzero]
        exact ih (index + 1) hrest

end Job

/-! ## Lines -/

/-- Where a line writes: two streams of a pool. What is written to the one for errors comes to an
end that takes every text. -/
structure Display where
  pool : Pool
  output : Nat
  errors : Nat
  takes : pool.Takes (pool.endOf errors)

/-- A display that keeps output and errors apart. -/
def Display.apart : Display :=
  ⟨((Pool.empty.addKeeping "").1.addKeeping "").1, 0, 1, Nat.one_lt_two⟩

namespace Session

/-- Run a line on a display. -/
def runOn (s : Session) (line : String) (d : Display) : Except Breakdown Int × Job :=
  s.runIn line d.pool d.output d.errors

/-- The stages that a line comes to on a display. -/
def visits (s : Session) (line : String) (d : Display) : List Visit :=
  let line := Text.trimmed line
  let (pool, out) := d.pool.add (.stream d.output)
  let (pool, err) := pool.add (.stream d.errors)
  Job.visits out err "" (Line.stages line) ⟨s.remember line, pool⟩

/-- A line ends with a code that is one of four, and a stage that cannot be read ends it with the
code of wrong use and the report of what is wrong as the last thing that is heard. -/
structure Survives (s : Session) (line : String) (d : Display) : Prop where
  code : ∃ code ∈ ([0, 1, 2, 127] : List Int), (s.runOn line d).1 = .ok code
  malformed : ∀ v ∈ s.visits line d, ∀ e, Parts.ofStage v.command = .error e →
    (s.runOn line d).1 = .ok 2 ∧
      (s.runOn line d).2.pool.heard (d.pool.endOf d.errors) =
        v.job.pool.heard (d.pool.endOf d.errors) ++ ("py-sh: " ++ e.message ++ "\n")

/-- The sessions that a boot with the commands of every session comes to by running lines, whatever
they come to, and as time passes. -/
inductive Reached : Session → Prop where
  | boot {b : Boot} {clock : Int} {storage : Storage} {s : Session}
    (h : (b.run builtIns clock storage).1 = .ok s) : Reached s
  | line {s : Session} (h : Reached s) (line : String) (d : Display) :
    Reached (s.runOn line d).2.session
  | clock {s : Session} (h : Reached s) (now : Int) : Reached (s.atTime now)

variable {s : Session} {line : String} {d : Display}

/-- None of the built-in commands is a diagnostic. -/
theorem isDiagnostic_builtIns {name : String} {c : Command} (h : builtIns.get? name = some c) :
    c.program.isDiagnostic = false := by
  have hall : ∀ e ∈ builtIns.commands.entries, e.2.program.isDiagnostic = false := by decide
  exact hall (name, c) (OrderedMap.mem_entries_iff.mpr h)

/-- A well-formed tree and the commands of every session are sound. -/
theorem sound_of_builtIns (hw : s.volume.tree.WellFormed) (hr : s.registry = builtIns) : s.Sound :=
  ⟨hw, fun _ _ hc => isDiagnostic_builtIns (hr ▸ hc)⟩

/-- The job that a line begins with. -/
def firstJob (s : Session) (line : String) (d : Display) : Job :=
  ⟨s.remember (Text.trimmed line),
    ((d.pool.add (.stream d.output)).1.add (.stream d.errors)).1⟩

/-- A line is run as its stages, on the streams of its display. -/
theorem runOn_eq (s : Session) (line : String) (d : Display) :
    s.runOn line d =
      Job.runStages d.pool.next (d.pool.add (.stream d.output)).1.next 0 ""
        (Line.stages (Text.trimmed line)) (s.firstJob line d) :=
  rfl

/-- The stages visited by a line are those visited by its list of stages. -/
theorem visits_eq (s : Session) (line : String) (d : Display) :
    s.visits line d =
      Job.visits d.pool.next (d.pool.add (.stream d.output)).1.next ""
        (Line.stages (Text.trimmed line)) (s.firstJob line d) :=
  rfl

/-- A sound session starts a line soundly. -/
theorem sound_firstJob (h : s.Sound) (line : String) (d : Display) :
    (s.firstJob line d).session.Sound := by
  unfold firstJob remember
  dsimp only
  split
  · exact h
  · exact ⟨h.wellFormed, h.plain⟩

/-- To run a line, and to come to one of its stages, is to do what is done in them and between
them. -/
theorem steps_runOn {allowed : Effect → Prop} (hbetween : ∀ e : Effect, e.Between → allowed e)
    (hplain : ∀ e, allowed e → e.Plain) (h : s.Sound) (line : String) (d : Display)
    (hvisits : ∀ v ∈ s.visits line d, ∀ e, v.MayDo e → allowed e) :
    Steps allowed (s.firstJob line d) (s.runOn line d).2 ∧
      ∀ v ∈ s.visits line d, Steps allowed (s.firstJob line d) v.job := by
  rw [runOn_eq, visits_eq] at *
  exact Job.steps_runStages hbetween hplain 0 (sound_firstJob h line d) hvisits

/-- All that a line does to a sound session is plain. -/
theorem plain_runOn (h : s.Sound) (line : String) (d : Display) :
    Steps Effect.Plain (s.firstJob line d) (s.runOn line d).2 :=
  (steps_runOn (fun _ => Effect.Between.plain) (fun _ he => he) h line d
    fun _ _ _ => Job.StageMayDo.plain).1

/-- A line ends with one of its codes, and it breaks off just if one of its stages stumbles. -/
theorem runOn_spec (h : s.Sound) (line : String) (d : Display) :
    (∀ code, (s.runOn line d).1 = .ok code → IsLineCode code) ∧
      ((∃ b, (s.runOn line d).1 = .error b) ↔ ∃ v ∈ s.visits line d, v.Stumbles) := by
  rw [runOn_eq, visits_eq]
  exact Job.runStages_spec _ _ 0 "" _ (sound_firstJob h line d)

/-- Every session that is reached is sound. -/
theorem Reached.sound (h : Reached s) : s.Sound := by
  induction h with
  | boot hs =>
    obtain ⟨v, rfl, hw⟩ := Boot.wellFormed_of_run hs
    exact ⟨hw, fun _ _ => isDiagnostic_builtIns⟩
  | line _ line d ih =>
    exact (plain_runOn ih line d).sound (sound_firstJob ih line d)
  | clock _ now ih => exact ⟨ih.wellFormed, ih.plain⟩

/-- Each stage of a line finds the session sound. -/
theorem sound_of_mem_visits (h : s.Sound) {v : Visit} (hv : v ∈ s.visits line d) :
    v.job.session.Sound := by
  rw [visits_eq] at hv
  exact (Job.steps_of_mem_visits (sound_firstJob h line d) hv).sound (sound_firstJob h line d)

/-- The stream that all stages of a line report to leads where the errors of the display are. -/
theorem endOf_errors_of_growsTo {p : Pool} (h : (s.firstJob line d).pool.GrowsTo p) :
    p.endOf (d.pool.add (.stream d.output)).1.next = d.pool.endOf d.errors ∧
      p.Takes (d.pool.endOf d.errors) := by
  have hout := d.pool.growsTo_add (.stream d.output)
  have hends := hout.endOf_eq d.takes.ne_nowhere
  have herr : (s.firstJob line d).pool.endOf (d.pool.add (.stream d.output)).1.next =
      d.pool.endOf d.errors := by
    rw [← hends]
    exact Pool.endOf_add_stream (hends ▸ d.takes.ne_nowhere)
  have htakes : (s.firstJob line d).pool.Takes (d.pool.endOf d.errors) :=
    (hout.trans (Pool.growsTo_add _ (.stream d.errors))).takes d.takes
  rw [← herr] at htakes ⊢
  exact ⟨h.endOf_eq htakes.ne_nowhere, h.takes htakes⟩

/-- What all stages of a line report is heard where the errors of the display are. -/
theorem endOf_errors_of_mem_visits (h : s.Sound) {v : Visit} (hv : v ∈ s.visits line d) :
    v.job.pool.endOf v.defaults.errors = d.pool.endOf d.errors ∧
      v.job.pool.Takes (d.pool.endOf d.errors) := by
  rw [visits_eq] at hv
  have hsteps := Job.steps_of_mem_visits (sound_firstJob h line d) hv
  rw [Job.errors_of_mem_visits hv]
  exact endOf_errors_of_growsTo hsteps.pool

/-- What a stage reports that cannot be read is the last thing that is heard. -/
theorem heard_report (h : s.Sound) {v : Visit} (hv : v ∈ s.visits line d) (e : LineError) :
    (v.job.write v.defaults.errors (Job.syntaxReport e)).2.pool.heard (d.pool.endOf d.errors) =
      v.job.pool.heard (d.pool.endOf d.errors) ++ Job.syntaxReport e := by
  obtain ⟨hend, htakes⟩ := endOf_errors_of_mem_visits h hv
  rw [← hend] at htakes ⊢
  rw [Job.write_of_not_file htakes.ne_file]
  exact Pool.heard_write htakes

/-- The codes of lines are these four. -/
theorem isLineCode_iff {code : Int} : IsLineCode code ↔ code ∈ ([0, 1, 2, 127] : List Int) := by
  simp [IsLineCode, IsExitCode, Action.success, Action.failure, Action.usage, Action.unknown,
    or_assoc]

/-- A line comes to a code, and has reported what cannot be read, just if none of the stages it
comes to stumbles. -/
theorem survives_iff_of_sound (h : s.Sound) (line : String) (d : Display) :
    s.Survives line d ↔ ∀ v ∈ s.visits line d, ¬ v.Stumbles := by
  obtain ⟨hcode, herror⟩ := runOn_spec h line d
  constructor
  · rintro ⟨⟨code, -, hok⟩, -⟩ v hv hstumbles
    obtain ⟨b, hb⟩ := herror.mpr ⟨v, hv, hstumbles⟩
    rw [hok] at hb
    cases hb
  · intro hnone
    refine ⟨?_, fun v hv e he => ?_⟩
    · cases hr : (s.runOn line d).1 with
      | error b =>
        obtain ⟨v, hv, hstumbles⟩ := herror.mp ⟨b, hr⟩
        exact absurd hstumbles (hnone v hv)
      | ok code => exact ⟨code, isLineCode_iff.mp (hcode code hr), rfl⟩
    · have hne : ∀ r, e ≠ .numeral r := by
        rintro r rfl
        exact hnone v hv (.digits he)
      have hreport := heard_report h hv e
      rw [visits_eq] at hv
      obtain ⟨husage, hpool⟩ := Job.runStages_of_end 0 hv (Job.runStage_of_malformed he hne)
        fun b h => by cases h
      rw [runOn_eq, hpool, hreport]
      exact ⟨husage, rfl⟩

/-! ## Files with texts only -/

/-- To remember a line is to change nothing but the lines run so far. -/
theorem exists_remember (s : Session) (line : String) :
    ∃ history, s.remember line = { s with history } := by
  unfold remember
  split
  · exact ⟨s.history, rfl⟩
  · exact ⟨_, rfl⟩

/-- To remember a line leaves the volume as it is. -/
theorem volume_remember (s : Session) (line : String) : (s.remember line).volume = s.volume := by
  obtain ⟨history, hs⟩ := s.exists_remember line
  rw [hs]

/-- A line starts with the files that the session has. -/
theorem holdsTexts_firstJob (ht : s.volume.tree.item?.HoldsTexts) (line : String) (d : Display) :
    (s.firstJob line d).session.volume.tree.item?.HoldsTexts := by
  rw [firstJob, volume_remember]
  exact ht

/-- A session that a boot without a record ends with has files that hold texts. -/
theorem holdsTexts_of_boot {b : Boot} {registry : Registry} {clock : Int} {storage : Storage}
    (hr : b.record storage = .ok none) (hs : (b.run registry clock storage).1 = .ok s) :
    s.volume.tree.item?.HoldsTexts := by
  have hkept : Tree.KeptByTexts (Tree.WellHolds fun content => ∃ text, content = .string text) :=
    Tree.keptByTexts_wellHolds fun text => ⟨text, rfl⟩
  obtain ⟨v, rfl, ht⟩ := Boot.run_keeps hkept (fun _ => Tree.wellHolds_empty _ clock)
    (fun origin r t h _ => by rw [hr] at h; cases h) hs
  exact ht.holds

/-- Where all files hold texts, a line comes to a code and has reported what cannot be read just if
the digits of the stages it comes to stand for numbers. -/
theorem survives_iff_of_texts (h : s.Sound) (ht : s.volume.tree.item?.HoldsTexts) (line : String)
    (d : Display) :
    s.Survives line d ↔
      ∀ v ∈ s.visits line d, ∀ e, Parts.ofStage v.command ≠ .error (.numeral e) := by
  rw [survives_iff_of_sound h]
  refine forall₂_congr fun v hv => ?_
  have hsound := sound_of_mem_visits h hv
  have hfirst := sound_firstJob h line d
  rw [visits_eq] at hv
  have hsteps := Job.steps_of_mem_visits hfirst hv
  have htexts := hsteps.holdsTexts hfirst (holdsTexts_firstJob ht line d)
  rw [Visit.Stumbles, Job.stumbles_iff_of_texts hsound htexts, not_exists]

/-! ## Output and errors apart -/

/-- To run a line is to run it on a display that keeps output and errors apart. -/
theorem run_eq (s : Session) (line : String) :
    s.run line =
      (⟨(s.runOn line .apart).1, ((s.runOn line .apart).2.pool.read Display.apart.output).1,
        ((s.runOn line .apart).2.pool.read Display.apart.errors).1⟩,
        (s.runOn line .apart).2.session) := by
  have hout : Display.apart.output = (Pool.empty.addKeeping "").2 := rfl
  have herr : Display.apart.errors = ((Pool.empty.addKeeping "").1.addKeeping "").2 := rfl
  have hrun : s.runOn line .apart =
      s.runIn line ((Pool.empty.addKeeping "").1.addKeeping "").1 (Pool.empty.addKeeping "").2
        ((Pool.empty.addKeeping "").1.addKeeping "").2 := rfl
  rw [hrun, hout, herr, run]

/-- A session is reached by each line that is run in it. -/
theorem Reached.run (h : s.Reached) (line : String) : (s.run line).2.Reached := by
  rw [run_eq]
  dsimp only
  exact h.line line .apart

/-- To remember a line leaves the aliases as they are. -/
theorem expandAlias_remember (s : Session) (line command : String) :
    (s.remember line).expandAlias command = s.expandAlias command := by
  obtain ⟨history, hs⟩ := s.exists_remember line
  rw [hs]
  rfl

/-- On a line that is one stage, whose first word is no alias, a session comes to that stage and no
other. -/
theorem visits_of_one {s : Session} {line : String}
    (hone : Line.stages (Text.trimmed line) = [line]) (hplain : s.expandAlias line = line) :
    ∃ v, s.visits line .apart = [v] ∧ v.command = line := by
  rw [visits_eq, hone, Job.visits]
  refine ⟨_, rfl, ?_⟩
  rw [Job.lastVisit, firstJob, expandAlias_remember, hplain]

/-- Some session that is reached comes to just one stage, on a line that is one stage whose first
word is none of the usual aliases. -/
theorem exists_visit (line : String) (hone : Line.stages (Text.trimmed line) = [line])
    (hplain : ∀ s : Session, s.aliases = usualAliases → s.expandAlias line = line) :
    ∃ s : Session, s.Reached ∧ ∃ v, s.visits line .apart = [v] ∧ v.command = line := by
  obtain ⟨s, hs⟩ := Boot.exists_usual
  exact ⟨s, .boot hs, visits_of_one hone (hplain s (Boot.aliases_of_run hs))⟩

/-- Whatever lines a session has run since its boot, the next line comes to a code, and has reported
what cannot be read, just if none of the stages it comes to stumbles; and if all files hold texts,
just if the digits of these stages stand for numbers. -/
theorem survives_iff (h : s.Reached) (line : String) (d : Display) :
    (s.Survives line d ↔ ∀ v ∈ s.visits line d, ¬ v.Stumbles) ∧
      (s.volume.tree.item?.HoldsTexts →
        (s.Survives line d ↔
          ∀ v ∈ s.visits line d, ∀ e, Parts.ofStage v.command ≠ .error (.numeral e))) :=
  ⟨survives_iff_of_sound h.sound line d, fun ht => survives_iff_of_texts h.sound ht line d⟩

/-- A redirection without a target does not break off. -/
theorem survives_unfinished_redirection :
    ∃ s : Session, s.Reached ∧ s.Survives "ls >" .apart := by
  obtain ⟨s, hs, v, hvisits, hcommand⟩ := exists_visit "ls >" (by decide +kernel)
    fun s h => by
      rw [expandAlias, h]
      decide +kernel
  have hparts : Parts.ofStage v.command = .error (.unexpected "newline") := by
    rw [hcommand]
    decide +kernel
  refine ⟨s, hs, (survives_iff hs "ls >" .apart).1.mpr fun v' hv' => ?_⟩
  have hsound := sound_of_mem_visits hs.sound hv'
  rw [hvisits, List.mem_singleton] at hv'
  rw [hv'] at hsound ⊢
  exact Job.not_stumbles_of_malformed hsound hparts fun r h => by cases h

/-- A superscript before an operator passes for a descriptor, but stands for no number: the line
breaks off. -/
theorem superscript_breaks_off :
    ∃ s : Session, s.Reached ∧ ¬ s.Survives "echo hi ²> f" .apart ∧
      (s.run "echo hi ²> f").1.code = .error (.numeral (.malformed "²")) := by
  obtain ⟨s, hs, v, hvisits, hcommand⟩ := exists_visit "echo hi ²> f" (by decide +kernel)
    fun s h => by
      rw [expandAlias, h]
      decide +kernel
  have hparts : Parts.ofStage v.command = .error (.numeral (.malformed "²")) := by
    rw [hcommand]
    decide +kernel
  have hv : v ∈ s.visits "echo hi ²> f" .apart := by
    rw [hvisits]
    exact List.mem_singleton_self v
  rw [visits_eq] at hv
  obtain ⟨hcode, -⟩ := Job.runStages_of_end 0 hv (Job.runStage_of_numeral hparts) fun b h => by
    cases h
  rw [← runOn_eq] at hcode
  refine ⟨s, hs, fun h => ?_, ?_⟩
  · obtain ⟨code, -, hok⟩ := h.code
    rw [hcode] at hok
    cases hok
  · rw [run_eq]
    exact hcode

end Session

end TreeShell
