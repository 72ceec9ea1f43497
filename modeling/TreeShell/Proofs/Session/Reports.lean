import TreeShell.Proofs.Session.Halting
import TreeShell.Proofs.Volume.Refusals

/-!
# Where reports arrive

A line that stops at a stage reports why: at the errors of the line if the stage could not be made
ready, else at what its descriptor for errors is bound to. That may be a stream of which nobody
reads what is written to it: the input of the stage, what a file held that it was to read, or the
pipe to a stage that is not run any more. In these cases the report is lost; in all others it is
heard where the line writes, or stands at the end of a file.
-/

namespace TreeShell

open Pool

/-- A text that is put behind what a file holds stands at its end; a file that is not there is made
for it. -/
theorem Volume.exists_appended {v v' : Volume} {path cwd text : String} (h : v.tree.WellFormed)
    (hv : v.perform cwd (.write path (.string text) true) = (.ok (), v')) :
    ∃ old, (v.tree.item?.content? (Path.resolve path cwd)).getD (.string "") = .string old ∧
      v'.tree.item?.content? (Path.resolve path cwd) = some (.string (old ++ text)) := by
  obtain ⟨new, hnew, hputs⟩ := puts_of_perform h hv
  rw [PathMap.written_eq, ← PathMap.content?] at hnew
  rw [hputs.content]
  cases hold : v.tree.item?.content? (Path.resolve path cwd) with
  | none =>
    rw [hold] at hnew
    cases hnew
    exact ⟨"", rfl, by rw [String.empty_append]⟩
  | some content =>
    rw [hold] at hnew
    cases content with
    | string old =>
      cases hnew
      exact ⟨old, rfl, rfl⟩
    | _ => cases hnew

/-! ## Reports -/

namespace Visit

variable {v : Visit} {text : String} {stream : Nat} {j : Job}

/-- A line stops at a stage with a report: its text, the stream that it is written to, and the job
at that time. -/
inductive Reports (v : Visit) : String → Nat → Job → Prop
  /-- The stage cannot be read, or a redirection fails. -/
  | unready {e : StageError} {w : Wiring}
    (hresolve : Stage.resolve v.command v.defaults v.job.session.cwd v.job.wiring = (.error e, w))
    (hnumeral : ∀ r, e ≠ .line (.numeral r)) (hcontent : ∀ r, e ≠ .content r) :
    Reports v ("py-sh: " ++ e.message ++ "\n") v.defaults.errors (v.job.rewire w)
  /-- The command is not found. -/
  | unknown {stage : Stage} {w : Wiring} {name : String} {e : UnitError}
    (hready : Stage.resolve v.command v.defaults v.job.session.cwd v.job.wiring = (.ok stage, w))
    (hname : stage.name = some name)
    (hload : v.job.session.registry.load w.volume.tree name v.job.session.bin = .error e)
    (hcontent : ∀ r, e ≠ .content r) :
    Reports v (name ++ ": command not found\n") stage.ends.errors
      ((v.job.rewire w).note .warning .loader e.message)
  /-- The command fails. -/
  | failure {stage : Stage} {w : Wiring} {name : String} {c : Command} {fault : Fault} {j : Job}
    (hready : Stage.resolve v.command v.defaults v.job.session.cwd v.job.wiring = (.ok stage, w))
    (hname : stage.name = some name)
    (hload : v.job.session.registry.load w.volume.tree name v.job.session.bin = .ok c)
    (hrun : Action.result (c.program.run ((v.job.rewire w).contextOf stage v.job.session.cwd))
      (v.job.rewire w) = (.error fault, j)) :
    Reports v (name ++ ": " ++ fault.message ++ "\n") stage.ends.errors
      (j.note .error .shell (name ++ ": " ++ fault.message))

namespace Reports

theorem text_ne_empty (h : v.Reports text stream j) : text ≠ "" := by
  have hends : ∀ {start rest : String}, rest ≠ "" → start ++ rest ≠ "" := fun hne he =>
    hne (String.append_eq_empty_iff.mp he).2
  cases h with
  | unready => exact hends (by decide)
  | unknown => exact hends (by decide)
  | failure => exact hends (by decide)

/-- Nothing but texts is written before a report. -/
theorem steps (h : v.Reports text stream j) (hv : v.job.session.Sound) :
    Steps Effect.Plain v.job j := by
  have hopens := (Stage.steps_resolve v.job v.command v.defaults v.job.session.cwd).plain
  cases h with
  | unready hresolve =>
    rw [hresolve] at hopens
    exact hopens
  | unknown hready =>
    rw [hready] at hopens
    exact hopens.trans (.single (e := .note _ _ _) trivial _)
  | failure hready hname hload hrun =>
    rw [hready] at hopens
    obtain ⟨entry, hentry⟩ := Registry.exists_get?_of_load hload
    obtain ⟨hsteps, -⟩ := Program.within_run (hv.plain entry _ hentry) _ _
    rw [hrun] at hsteps
    exact (hopens.trans (hsteps.mono fun _ he => he.plain)).trans
      (.single (e := .note _ _ _) trivial _)

end Reports

end Visit

namespace Job

variable {j : Job} {stream fallback : Nat} {text : String}

/-- What leads into no file is reported where it is written to first. -/
theorem report_of_not_file (h : ∀ path cwd, j.pool.endOf stream ≠ .file path cwd) :
    j.report stream fallback text =
      (.ok (), { j with pool := j.pool.write stream text }) := by
  rw [report, write_of_not_file h]

/-- A report that is not refused comes to the code that goes with it. -/
theorem codeAfter_report (hj : j.session.Sound) (h : ¬ j.Refuses stream) (code : Int) :
    codeAfter code (j.report stream fallback text) =
      (.ok code, (j.report stream fallback text).2) := by
  have hrefused : ¬ ∃ e, (j.report stream fallback text).1 = .error e :=
    (report_refused_iff hj).not.mpr h
  cases hr : j.report stream fallback text with
  | mk outcome j' =>
    cases outcome with
    | ok _ => rfl
    | error e => exact absurd ⟨e, congrArg Prod.fst hr⟩ hrefused

end Job

namespace Visit.Reports

variable {v : Visit} {text : String} {stream : Nat} {j : Job}

/-- A report that is not refused is the last thing that is done in its stage. -/
theorem run (h : v.Reports text stream j) (hv : v.job.session.Sound)
    (hend : v.job.pool.Takes (v.job.pool.endOf v.defaults.errors)) (hno : ¬ j.Refuses stream) :
    ∃ code redirected, code ≠ Action.success ∧
      v.run = (.ok (code, redirected), (j.report stream v.defaults.errors text).2) := by
  have hj := (h.steps hv).sound hv
  have hgrows := (h.steps hv).pool
  cases h with
  | @unready e w hresolve hnumeral hcontent =>
    have hfile := (hgrows.takes_endOf hend).ne_file
    rw [Job.report_of_not_file hfile, Visit.run, Job.runStage, hresolve]
    cases e with
    | line e =>
      cases e with
      | numeral r => exact absurd rfl (hnumeral r)
      | _ =>
        refine ⟨Action.usage, false, by decide, ?_⟩
        dsimp only
        rw [Job.write_of_not_file hfile]
        rfl
    | content r => exact absurd rfl (hcontent r)
    | _ =>
      refine ⟨Action.failure, false, by decide, ?_⟩
      dsimp only
      rw [Job.write_of_not_file hfile]
  | @unknown stage w name e hready hname hload hcontent =>
    refine ⟨Action.unknown, stage.outputRedirected, by decide, ?_⟩
    have hcommand : (v.job.rewire w).runCommand name stage v.job.session.cwd v.defaults.errors =
        Job.codeAfter Action.unknown
          (((v.job.rewire w).note .warning .loader e.message).report stage.ends.errors
            v.defaults.errors (name ++ ": command not found\n")) :=
      Job.runCommand_of_error hcontent hload
    rw [Job.codeAfter_report hj hno] at hcommand
    rw [Visit.run, Job.runStage_of_ready hready hname, hcommand]
    rfl
  | @failure stage w name c fault j hready hname hload hrun =>
    refine ⟨Action.failure, stage.outputRedirected, by decide, ?_⟩
    have hcommand : (v.job.rewire w).runCommand name stage v.job.session.cwd v.defaults.errors =
        Job.runProgram c name ((v.job.rewire w).contextOf stage v.job.session.cwd)
          v.defaults.errors (v.job.rewire w) :=
      Job.runCommand_of_ok hload
    rw [Job.runProgram_of_error hrun] at hcommand
    have hcode := hcommand.trans (Job.codeAfter_report hj hno Action.failure)
    rw [Visit.run, Job.runStage_of_ready hready hname, hcode]
    rfl

end Visit.Reports

/-! ## Streams that nobody reads -/

/-- The redirections of a stage bind its descriptor for errors to a stream of which nobody reads
what is written to it, where `last` tells whether the stage is the last of its line. -/
inductive Redirection.LosesErrors (rs : List Redirection) (last : Prop) : Prop where
  /-- It is the input that the stage starts with. -/
  | input (hbound : binding? rs.reverse 2 = some (.standard 0))
  /-- It is the pipe to the next stage. -/
  | pipe (hbound : binding? rs.reverse 2 = some (.standard 1)) (hmore : ¬ last)
  /-- It is opened with what a file holds. -/
  | file {i : Nat} {r : Redirection} (hbound : binding? rs.reverse 2 = some (.opened i))
    (hr : rs[i]? = some r) (hop : r.operator = .read)

theorem Redirection.losesErrors_iff {rs : List Redirection} {last : Prop} {b : Binding}
    (hb : binding? rs.reverse 2 = some b) :
    LosesErrors rs last ↔ b = .standard 0 ∨ b = .standard 1 ∧ ¬ last ∨
      ∃ i r, b = .opened i ∧ rs[i]? = some r ∧ r.operator = .read := by
  constructor
  · rintro (hbound | ⟨hbound, hmore⟩ | ⟨hbound, hr, hop⟩)
    · exact Or.inl (Option.some.inj (hb.symm.trans hbound))
    · exact Or.inr (Or.inl ⟨Option.some.inj (hb.symm.trans hbound), hmore⟩)
    · exact Or.inr (Or.inr ⟨_, _, Option.some.inj (hb.symm.trans hbound), hr, hop⟩)
  · rintro (rfl | ⟨rfl, hmore⟩ | ⟨i, r, rfl, hr, hop⟩)
    · exact .input hb
    · exact .pipe hb hmore
    · exact .file hb hr hop

/-- A stage can be made ready, and then reports are lost. -/
structure Visit.LosesReports (v : Visit) (last : Prop) : Prop where
  ready : ∃ stage w,
    Stage.resolve v.command v.defaults v.job.session.cwd v.job.wiring = (.ok stage, w)
  loses : ∃ parts, Parts.ofStage v.command = .ok parts ∧
    Redirection.LosesErrors parts.redirections last

namespace Display

variable {d : Display} {e : End}

/-- A text that comes to an end is heard where a line writes, or stands in a file. -/
inductive Shows (d : Display) : End → Prop
  | errors : Shows d (d.pool.endOf d.errors)
  | output : Shows d (d.pool.endOf d.output)
  | file (path cwd : String) : Shows d (.file path cwd)

/-- A text that comes to an end is kept in a stream that the line has opened. -/
inductive Hides (d : Display) : End → Prop
  | keeper {n : Nat} (h : d.pool.next ≤ n) : Hides d (.keeper n)

theorem Hides.ne_nowhere (h : d.Hides e) : e ≠ .nowhere := by
  cases h
  exact End.noConfusion

theorem Shows.ne_nowhere (h : d.Shows e) (hout : d.pool.Takes (d.pool.endOf d.output)) :
    e ≠ .nowhere := by
  cases h with
  | errors => exact d.takes.ne_nowhere
  | output => exact hout.ne_nowhere
  | file => exact End.noConfusion

theorem Hides.ne_of_takes (h : d.Hides e) {e' : End} (he : d.pool.Takes e') : e ≠ e' := by
  obtain ⟨hn⟩ := h
  rintro rfl
  exact Nat.not_lt.mpr hn he

end Display

/-- A text arrives when a job comes to another: it is heard last at the errors or at the output of a
line, or stands at the end of a file, behind what the file held. -/
inductive Display.Arrives (d : Display) (text : String) (j j' : Job) : Prop where
  | errors (h : j'.pool.heard (d.pool.endOf d.errors) =
      j.pool.heard (d.pool.endOf d.errors) ++ text)
  | output (h : j'.pool.heard (d.pool.endOf d.output) =
      j.pool.heard (d.pool.endOf d.output) ++ text)
  | file {p : Segments} {old : String}
    (hold : (j.session.volume.tree.item?.content? p).getD (.string "") = .string old)
    (hnew : j'.session.volume.tree.item?.content? p = some (.string (old ++ text)))

namespace Display

variable {d : Display} {text : String} {j j' k : Job} {stream fallback : Nat}

/-- What arrives is told by the streams and the tree. -/
theorem Arrives.congr (h : d.Arrives text j j') (hpool : k.pool = j'.pool)
    (htree : k.session.volume.tree = j'.session.volume.tree) : d.Arrives text j k := by
  cases h with
  | errors h => exact .errors (hpool ▸ h)
  | output h => exact .output (hpool ▸ h)
  | file hold hnew => exact .file hold (htree ▸ hnew)

/-- A report to an end that shows it arrives, there or where it is written to instead. -/
theorem Shows.arrives (h : d.Shows (j.pool.endOf stream)) (hj : j.session.Sound)
    (hgrows : d.pool.GrowsTo j.pool) (hout : d.pool.Takes (d.pool.endOf d.output))
    (hfallback : j.pool.endOf fallback = d.pool.endOf d.errors) (hno : ¬ j.Refuses stream) :
    d.Arrives text j (j.report stream fallback text).2 := by
  generalize hend : j.pool.endOf stream = e at h
  cases h with
  | errors =>
    have htakes := hgrows.takes d.takes
    rw [← hend] at htakes
    rw [Job.report_of_not_file htakes.ne_file]
    exact .errors (hend ▸ heard_write htakes)
  | output =>
    have htakes := hgrows.takes hout
    rw [← hend] at htakes
    rw [Job.report_of_not_file htakes.ne_file]
    exact .output (hend ▸ heard_write htakes)
  | file path cwd =>
    have hwrite : j.write stream text = _ := Job.write_of_file hend
    have hrefused : ¬ ∃ e, (j.write stream text).1 = .error (.content e) :=
      (Job.write_refused_iff hj).not.mpr hno
    rw [hwrite] at hrefused
    rw [Job.report, hwrite]
    cases hv : j.session.volume.perform cwd (.write path (.string text) true) with
    | mk outcome volume =>
      rw [hv] at hrefused
      dsimp only
      cases outcome with
      | ok _ =>
        obtain ⟨old, hold, hnew⟩ := Volume.exists_appended hj.wellFormed hv
        refine .file hold ?_
        rw [Job.edit, Job.session_mapSession, hv]
        exact hnew
      | error e =>
        -- the file cannot be written to any more, so the report goes to the errors of the line
        have htakes : (j.edit cwd (.write path (.string text) true)).pool.Takes
            ((j.edit cwd (.write path (.string text) true)).pool.endOf fallback) := by
          rw [Job.pool_edit, hfallback]
          exact hgrows.takes d.takes
        have hheard : (j.pool.write fallback text).heard (d.pool.endOf d.errors) =
            j.pool.heard (d.pool.endOf d.errors) ++ text := by
          rw [← hfallback]
          exact heard_write htakes
        cases e with
        | content r => exact absurd ⟨r, rfl⟩ hrefused
        | _ =>
          dsimp only
          rw [Job.write_of_not_file htakes.ne_file]
          exact .errors hheard

/-- A report to an end that hides it does not arrive. -/
theorem Hides.not_arrives (h : d.Hides (j.pool.endOf stream))
    (hout : d.pool.Takes (d.pool.endOf d.output)) (htext : text ≠ "") :
    ¬ d.Arrives text j (j.report stream fallback text).2 := by
  have hfile : ∀ path cwd, j.pool.endOf stream ≠ .file path cwd := by
    intro path cwd he
    rw [he] at h
    cases h
  have hsame : ∀ {e}, d.pool.Takes e → (j.pool.write stream text).heard e = j.pool.heard e :=
    fun he => heard_write_elsewhere (h.ne_of_takes he)
  have hlonger : ∀ old : String, old ≠ old ++ text := by
    intro old he
    rw [← String.toList_inj, String.toList_append, List.self_eq_append_right,
      String.toList_eq_nil_iff] at he
    exact htext he
  rw [Job.report_of_not_file hfile]
  intro harrives
  cases harrives with
  | errors he => exact hlonger _ ((hsame d.takes).symm.trans he)
  | output he => exact hlonger _ ((hsame hout).symm.trans he)
  | @file p old hold hnew =>
    dsimp only at hnew
    rw [hnew, Option.getD_some] at hold
    exact hlonger old (Json.string.inj hold).symm

end Display

/-! ## Stages of a line -/

namespace Visit

variable {v : Visit} {d : Display} {last : Prop} {text : String} {stream : Nat} {j : Job}

/-- Where the streams lead that a stage of a line starts with. -/
structure Placed (v : Visit) (d : Display) (last : Prop) : Prop where
  grows : d.pool.GrowsTo v.job.pool
  input : v.job.pool.endOf v.defaults.input = .keeper v.defaults.input
  pipe : ¬ last → v.job.pool.endOf v.defaults.output = .keeper v.defaults.output
  output : last → v.job.pool.endOf v.defaults.output = d.pool.endOf d.output
  errors : v.job.pool.endOf v.defaults.errors = d.pool.endOf d.errors
  takes : ∀ k, v.job.pool.Takes (v.job.pool.endOf (v.defaults.get k))
  starts : v.StartsFrom d.pool.next

/-- What is written to one of the streams that a stage starts with is hidden just if it is the input
or leads to the next stage, and else is shown. -/
theorem Placed.hides_or_shows (h : v.Placed d last) (k : Fin 3) :
    (k = 0 ∨ k = 1 ∧ ¬ last) ∧ d.Hides (v.job.pool.endOf (v.defaults.get k)) ∨
      ¬ (k = 0 ∨ k = 1 ∧ ¬ last) ∧ d.Shows (v.job.pool.endOf (v.defaults.get k)) := by
  have hstart := h.starts.defaults k
  fin_cases k
  · refine Or.inl ⟨Or.inl rfl, ?_⟩
    change d.Hides (v.job.pool.endOf v.defaults.input)
    rw [h.input]
    exact .keeper hstart
  · by_cases hlast : last
    · refine Or.inr ⟨by simp [hlast], ?_⟩
      change d.Shows (v.job.pool.endOf v.defaults.output)
      rw [h.output hlast]
      exact .output
    · refine Or.inl ⟨Or.inr ⟨rfl, hlast⟩, ?_⟩
      change d.Hides (v.job.pool.endOf v.defaults.output)
      rw [h.pipe hlast]
      exact .keeper hstart
  · refine Or.inr ⟨by simp, ?_⟩
    change d.Shows (v.job.pool.endOf v.defaults.errors)
    rw [h.errors]
    exact .errors

/-- A stage that is ready loses its reports if its redirections lose errors. -/
theorem losesReports_iff {stage : Stage} {w : Wiring} {parts : Parts}
    (hready : Stage.resolve v.command v.defaults v.job.session.cwd v.job.wiring = (.ok stage, w))
    (hparts : Parts.ofStage v.command = .ok parts) :
    v.LosesReports last ↔ Redirection.LosesErrors parts.redirections last := by
  constructor
  · rintro ⟨-, parts', hparts', hloses⟩
    rw [hparts] at hparts'
    cases hparts'
    exact hloses
  · exact fun hloses => ⟨⟨stage, w, hready⟩, parts, hparts, hloses⟩

/-- A report of a stage that is ready is hidden just if it is lost, and else is shown. -/
theorem hides_or_shows_of_ready (h : v.Placed d last) (hv : v.job.session.Sound) {stage : Stage}
    {w : Wiring}
    (hready : Stage.resolve v.command v.defaults v.job.session.cwd v.job.wiring = (.ok stage, w)) :
    v.LosesReports last ∧ d.Hides (w.pool.endOf stage.ends.errors) ∨
      ¬ v.LosesReports last ∧ d.Shows (w.pool.endOf stage.ends.errors) := by
  have hgrows : v.job.pool.GrowsTo w.pool := by
    have hsteps := Stage.steps_resolve v.job v.command v.defaults v.job.session.cwd
    rw [hready] at hsteps
    exact hsteps.pool
  have hkeep : ∀ k, w.pool.endOf (v.defaults.get k) = v.job.pool.endOf (v.defaults.get k) :=
    fun k => hgrows.endOf_eq (h.takes k).ne_nowhere
  obtain ⟨parts, table, hparts, hconnect, hstage⟩ := Stage.resolve_eq_ok hready
  have hbinds := Stage.ready_of_connectAll hv.wellFormed hconnect
  obtain ⟨b, hb, hstream⟩ := hbinds.bound 2
  have herrors : stage.ends.errors =
      b.stream v.defaults v.job.wiring.pool.next parts.redirections := by
    rw [hstage]
    exact hstream
  rw [herrors]
  rw [losesReports_iff hready hparts, Redirection.losesErrors_iff hb]
  cases b with
  | standard k =>
    rw [Binding.stream, hkeep]
    rcases h.hides_or_shows k with ⟨hk, hhides⟩ | ⟨hk, hshows⟩
    · exact Or.inl ⟨by simpa using hk, hhides⟩
    · exact Or.inr ⟨by simpa using hk, hshows⟩
  | opened i =>
    obtain ⟨r, path, hr, -, ⟨hop, text, hkept⟩ | ⟨hop, hleads, -⟩⟩ := hbinds.opened hb
    · refine Or.inl ⟨Or.inr (Or.inr ⟨i, r, rfl, hr, hop⟩), ?_⟩
      rw [Binding.stream, (endOf_of_stream hkept).1 rfl]
      exact .keeper (h.starts.next.trans (Nat.le_add_right _ _))
    · refine Or.inr ⟨?_, ?_⟩
      · rintro (hb | ⟨hb, -⟩ | ⟨i', r', hi, hr', hread⟩)
        · cases hb
        · cases hb
        · cases hi
          rw [hr] at hr'
          cases hr'
          rw [hread] at hop
          exact absurd hop (by decide)
      · rw [Binding.stream, (endOf_of_stream hleads).2 _ _ rfl]
        exact .file _ _

/-- A report is hidden just if the stage loses it, and else is shown. -/
theorem Reports.hides_or_shows (h : v.Reports text stream j) (hplaced : v.Placed d last)
    (hv : v.job.session.Sound) (hout : d.pool.Takes (d.pool.endOf d.output)) :
    v.LosesReports last ∧ d.Hides (j.pool.endOf stream) ∨
      ¬ v.LosesReports last ∧ d.Shows (j.pool.endOf stream) := by
  cases h with
  | @unready e w hresolve =>
    refine Or.inr ⟨fun hloses => ?_, ?_⟩
    · obtain ⟨stage, w', hready⟩ := hloses.ready
      rw [hresolve] at hready
      cases hready
    · have hsteps := Stage.steps_resolve v.job v.command v.defaults v.job.session.cwd
      rw [hresolve] at hsteps
      have hsame : (v.job.rewire w).pool.endOf v.defaults.errors = d.pool.endOf d.errors :=
        (hsteps.pool.endOf_eq (hplaced.takes 2).ne_nowhere).trans hplaced.errors
      exact hsame ▸ .errors
  | unknown hready => exact hides_or_shows_of_ready hplaced hv hready
  | @failure stage w name c fault j hready hname hload hrun =>
    have hends := hides_or_shows_of_ready hplaced hv hready
    have hne : w.pool.endOf stage.ends.errors ≠ .nowhere := by
      rcases hends with ⟨-, hhides⟩ | ⟨-, hshows⟩
      · exact hhides.ne_nowhere
      · exact hshows.ne_nowhere hout
    obtain ⟨entry, hentry⟩ := Registry.exists_get?_of_load hload
    obtain ⟨hsteps, -⟩ := Program.within_run (hv.plain entry _ hentry)
      ((v.job.rewire w).contextOf stage v.job.session.cwd) (v.job.rewire w)
    rw [hrun] at hsteps
    have hsame : j.pool.endOf stage.ends.errors = w.pool.endOf stage.ends.errors :=
      hsteps.pool.endOf_eq hne
    rw [← hsame] at hends
    exact hends

end Visit

/-- A line comes to no more stages than it has. -/
theorem Job.lt_length_of_visits {output errors k : Nat} {piped : String} {commands : List String}
    {j : Job} {v : Visit} (hv : (j.visits output errors piped commands)[k]? = some v) :
    k < commands.length := by
  induction k generalizing piped j commands with
  | zero =>
    cases commands with
    | nil => cases hv
    | cons command rest => exact Nat.zero_lt_succ _
  | succ k ih =>
    match commands with
    | [] => cases hv
    | [_] => cases hv
    | command :: next :: rest =>
      obtain ⟨redirected, j', -, hrest⟩ := visits_next_getElem?.mp hv
      exact Nat.succ_lt_succ (ih hrest)

namespace Session

variable {s : Session} {line : String} {d : Display} {k : Nat} {v : Visit} {code : Int}
  {redirected : Bool} {j' : Job}

/-- The stream that the last stage of a line writes to leads where the output of the display is. -/
theorem endOf_output_of_growsTo (hout : d.pool.Takes (d.pool.endOf d.output)) {p : Pool}
    (h : (s.firstJob line d).pool.GrowsTo p) : p.endOf d.pool.next = d.pool.endOf d.output := by
  have hadd : (d.pool.add (.stream d.output)).1.endOf d.pool.next = d.pool.endOf d.output :=
    Pool.endOf_add_stream hout.ne_nowhere
  have hgrows := (Pool.growsTo_add (d.pool.add (.stream d.output)).1 (.stream d.errors)).trans h
  rw [← hadd] at hout ⊢
  exact hgrows.endOf_eq hout.ne_nowhere

/-- The streams that a stage starts with are those of the line, or some of its own. -/
theorem placed_of_visits (h : s.Sound) (hout : d.pool.Takes (d.pool.endOf d.output))
    (hv : (s.visits line d)[k]? = some v) :
    v.Placed d (k + 1 = (Line.stages (Text.trimmed line)).length) := by
  have hmem := List.mem_of_getElem? hv
  have hstarts := startsFrom_of_mem_visits h hmem
  have htakes := takes_of_mem_visits h hout hmem
  have herrors := (endOf_errors_of_mem_visits h hmem).1
  have hfirst := sound_firstJob h line d
  rw [visits_eq] at hv hmem
  have hgrows := (Job.steps_of_mem_visits hfirst hmem).pool
  have hlength := Job.lt_length_of_visits hv
  obtain ⟨j, piped, command, -, hvisit, -⟩ :=
    Job.exists_stage (P := fun _ => True) (fun _ _ _ _ _ _ _ => trivial) trivial hv
  rw [Job.visits_cons_getElem?, Option.some.injEq] at hvisit
  have hall := ((d.pool.growsTo_add (.stream d.output)).trans
    (Pool.growsTo_add _ (.stream d.errors))).trans hgrows
  have hinput := (j.keeps_addKeeping piped).1
  by_cases hlast : (Line.stages (Text.trimmed line)).drop (k + 1) = []
  · rw [if_pos hlast] at hvisit
    subst hvisit
    rw [List.drop_eq_nil_iff] at hlast
    exact ⟨hall, hinput.endOf_eq, fun hmore => absurd (by omega) hmore,
      fun _ => endOf_output_of_growsTo hout hgrows, herrors, htakes, hstarts⟩
  · rw [if_neg hlast] at hvisit
    subst hvisit
    rw [List.drop_eq_nil_iff] at hlast
    have hpipe := Job.steps_addKeeping (j.addKeeping piped).1 ""
    exact ⟨hall, (hpipe.pool.keeps hinput).endOf_eq,
      fun _ => (Job.keeps_addKeeping (j.addKeeping piped).1 "").1.endOf_eq,
      fun hend => absurd (Nat.le_of_eq hend.symm) hlast, herrors, htakes, hstarts⟩

/-- A stage that fails ends its line: with its code, and nothing is written any more. -/
theorem runOn_of_failure (hv : (s.visits line d)[k]? = some v)
    (hrun : v.run = (.ok (code, redirected), j')) (hfails : code ≠ Action.success) :
    (s.runOn line d).1 = .ok code ∧ (s.runOn line d).2.pool = j'.pool ∧
      (s.runOn line d).2.session.volume.tree = j'.session.volume.tree := by
  rw [visits_eq] at hv
  obtain ⟨j, piped, command, -, hfirst, hrunStages⟩ :=
    Job.exists_stage (P := fun _ => True) (fun _ _ _ _ _ _ _ => trivial) trivial hv
  rw [Job.visits_cons_getElem?, Option.some.injEq] at hfirst
  have hends := hrunStages 0 ((Line.stages (Text.trimmed line)).drop (k + 1))
  rw [List.take_append_drop, ← runOn_eq] at hends
  by_cases hlast : (Line.stages (Text.trimmed line)).drop (k + 1) = []
  · rw [if_pos hlast] at hfirst
    rw [hends, hlast, Job.runStages_last, hfirst, hrun]
    exact ⟨rfl, rfl, rfl⟩
  · rw [if_neg hlast] at hfirst
    subst hfirst
    obtain ⟨message, hmessage⟩ := Job.exists_halt d.pool.next hrun hfails (0 + k)
    rw [hends, hmessage _ hlast]
    exact ⟨rfl, rfl, rfl⟩

/-- Where all files hold texts, no report is refused. -/
theorem not_refuses_of_texts (h : s.Sound) (ht : s.volume.tree.item?.HoldsTexts)
    (hv : v ∈ s.visits line d) {text : String} {stream : Nat} {j : Job}
    (hreports : v.Reports text stream j) : ¬ j.Refuses stream := by
  have hsound := sound_of_mem_visits h hv
  have hfirst := sound_firstJob h line d
  rw [visits_eq] at hv
  have hsteps := (Job.steps_of_mem_visits hfirst hv).trans (hreports.steps hsound)
  exact Job.not_refuses (hsteps.holdsTexts hfirst (holdsTexts_firstJob ht line d)) stream

/-- A report that is not refused ends its line, and arrives just if it is not lost. -/
theorem arrives_iff_of_sound (h : s.Sound) (hout : d.pool.Takes (d.pool.endOf d.output))
    (hv : (s.visits line d)[k]? = some v) {text : String} {stream : Nat} {j : Job}
    (hreports : v.Reports text stream j) (hno : ¬ j.Refuses stream) :
    (∃ code, code ≠ Action.success ∧ (s.runOn line d).1 = .ok code) ∧
      (d.Arrives text j (s.runOn line d).2 ↔
        ¬ v.LosesReports (k + 1 = (Line.stages (Text.trimmed line)).length)) := by
  have hsound := sound_of_mem_visits h (List.mem_of_getElem? hv)
  have hplaced := placed_of_visits h hout hv
  have hsteps := hreports.steps hsound
  obtain ⟨code, redirected, hfails, hrun⟩ := hreports.run hsound (hplaced.takes 2) hno
  obtain ⟨hcode, hpool, htree⟩ := runOn_of_failure hv hrun hfails
  refine ⟨⟨code, hfails, hcode⟩, ?_⟩
  rcases hreports.hides_or_shows hplaced hsound hout with ⟨hloses, hhides⟩ | ⟨hloses, hshows⟩
  · refine iff_of_false (fun harrives => ?_) (not_not.mpr hloses)
    exact hhides.not_arrives hout hreports.text_ne_empty (harrives.congr hpool.symm htree.symm)
  · have herrors : j.pool.endOf v.defaults.errors = d.pool.endOf d.errors :=
      (hsteps.pool.endOf_eq (hplaced.takes 2).ne_nowhere).trans hplaced.errors
    have harrives : d.Arrives text j (j.report stream v.defaults.errors text).2 :=
      hshows.arrives (hsteps.sound hsound) (hplaced.grows.trans hsteps.pool) hout herrors hno
    exact iff_of_true (harrives.congr hpool htree) hloses

/-- Whatever line is run by a session with the commands that every session has, on a display that
leads into no file: if the line stops at a stage with a report, and this does not meet a file that
holds no text, then the line ends with the code of a failure, and the report arrives just if the
stage does not lose it. -/
theorem report_arrives_unless_lost (hw : s.volume.tree.WellFormed) (hr : s.registry = builtIns)
    (hout : d.pool.Takes (d.pool.endOf d.output)) (hv : (s.visits line d)[k]? = some v)
    {text : String} {stream : Nat} {j : Job} (hreports : v.Reports text stream j)
    (hno : ¬ j.Refuses stream) :
    (∃ code, code ≠ Action.success ∧ (s.runOn line d).1 = .ok code) ∧
      (d.Arrives text j (s.runOn line d).2 ↔
        ¬ v.LosesReports (k + 1 = (Line.stages (Text.trimmed line)).length)) :=
  arrives_iff_of_sound (sound_of_builtIns hw hr) hout hv hreports hno

end Session

/-! ## Commands that are not found -/

namespace Visit

variable {v : Visit} {name : String}

/-- Whether a stage can be made ready, and its command has the name and is not found. -/
def misses (v : Visit) (name : String) : Bool :=
  match Stage.resolve v.command v.defaults v.job.session.cwd v.job.wiring with
  | (.error _, _) => false
  | (.ok stage, w) =>
    stage.name == some name &&
      match v.job.session.registry.load w.volume.tree name v.job.session.bin with
      | .ok _ | .error (.content _) => false
      | .error _ => true

theorem exists_reports_of_misses (h : v.misses name = true) :
    ∃ stage w j,
      Stage.resolve v.command v.defaults v.job.session.cwd v.job.wiring = (.ok stage, w) ∧
        v.Reports (name ++ ": command not found\n") stage.ends.errors j := by
  unfold misses at h
  split at h
  · cases h
  · next stage w hready =>
    rw [Bool.and_eq_true, beq_iff_eq] at h
    obtain ⟨hname, hmissing⟩ := h
    split at hmissing
    · cases hmissing
    · cases hmissing
    · next e hcontent hload => exact ⟨stage, w, _, hready, .unknown hready hname hload hcontent⟩

end Visit

namespace Session

/-- Whether a line begins with a stage as it is written whose command is not found. -/
def missesFirst (s : Session) (line command name : String) : Bool :=
  (s.visits line .apart)[0]?.any fun v => v.command == command && v.misses name

theorem exists_visit_of_missesFirst {s : Session} {line command name : String}
    (h : s.missesFirst line command name = true) :
    ∃ v, (s.visits line .apart)[0]? = some v ∧ v.command = command ∧ v.misses name = true := by
  obtain ⟨v, hv, hboth⟩ := (Option.any_eq_true _ _).mp h
  rw [Bool.and_eq_true, beq_iff_eq] at hboth
  exact ⟨v, hv, hboth⟩

/-- Some session in which all files hold texts does not find a command, be its errors led into a
file or into a pipe. -/
theorem exists_missing :
    ∃ s : Session, Boot.usual = .ok s ∧ s.Reached ∧ s.volume.tree.item?.HoldsTexts ∧
      s.missesFirst "nosuch 2> f" "nosuch 2> f" "nosuch" = true ∧
        s.missesFirst "nosuch 2>&1 | cat" "nosuch 2>&1" "nosuch" = true := by
  refine ⟨Boot.usualSession, Boot.usual_eq, .boot Boot.usual_eq,
    holdsTexts_of_boot rfl Boot.usual_eq, ?_⟩
  decide +kernel

/-- A report that is led into a file arrives there. -/
theorem report_arrives_in_file :
    ∃ (s : Session) (v : Visit) (stream : Nat) (j : Job),
      (s.visits "nosuch 2> f" .apart)[0]? = some v ∧
        v.Reports "nosuch: command not found\n" stream j ∧
          Display.apart.Arrives "nosuch: command not found\n" j
            (s.runOn "nosuch 2> f" .apart).2 := by
  obtain ⟨s, hs, hreached, htexts, hfirst, -⟩ := exists_missing
  obtain ⟨v, hv, hcommand, hmisses⟩ := exists_visit_of_missesFirst hfirst
  obtain ⟨stage, w, j, hready, hreports⟩ := Visit.exists_reports_of_misses hmisses
  have hno := not_refuses_of_texts hreached.sound htexts (List.mem_of_getElem? hv) hreports
  have hout : Display.apart.pool.Takes (Display.apart.pool.endOf Display.apart.output) :=
    Nat.zero_lt_two
  refine ⟨s, v, _, j, hv, hreports, (report_arrives_unless_lost hreached.sound.wellFormed
    (Boot.registry_of_run hs) hout hv hreports hno).2.mpr ?_⟩
  rintro ⟨-, parts, hparts, hloses⟩
  have hknown : Parts.ofStage v.command = .ok ⟨["nosuch"], [⟨2, .write, .file "f"⟩]⟩ := by
    rw [hcommand]
    decide +kernel
  rw [hknown] at hparts
  cases hparts
  have hbound : Redirection.binding? [⟨2, .write, .file "f"⟩].reverse 2 = some (.opened 0) := rfl
  rw [Redirection.losesErrors_iff hbound] at hloses
  rcases hloses with h | ⟨h, -⟩ | ⟨i, r, hi, hr, hop⟩
  · cases h
  · cases h
  · cases hi
    cases hr
    cases hop

/-- A report that is led into the pipe to a stage that is not run any more does not arrive. -/
theorem report_lost_in_pipe :
    ∃ (s : Session) (v : Visit) (stream : Nat) (j : Job),
      s.Reached ∧ (s.visits "nosuch 2>&1 | cat" .apart)[0]? = some v ∧
        v.Reports "nosuch: command not found\n" stream j ∧
          (∃ code, code ≠ Action.success ∧ (s.runOn "nosuch 2>&1 | cat" .apart).1 = .ok code) ∧
            ¬ Display.apart.Arrives "nosuch: command not found\n" j
              (s.runOn "nosuch 2>&1 | cat" .apart).2 := by
  obtain ⟨s, -, hreached, htexts, -, hfirst⟩ := exists_missing
  obtain ⟨v, hv, hcommand, hmisses⟩ := exists_visit_of_missesFirst hfirst
  obtain ⟨stage, w, j, hready, hreports⟩ := Visit.exists_reports_of_misses hmisses
  have hno := not_refuses_of_texts hreached.sound htexts (List.mem_of_getElem? hv) hreports
  have hout : Display.apart.pool.Takes (Display.apart.pool.endOf Display.apart.output) :=
    Nat.zero_lt_two
  obtain ⟨hcode, harrives⟩ := arrives_iff_of_sound hreached.sound hout hv hreports hno
  have hknown : Parts.ofStage v.command = .ok ⟨["nosuch"], [⟨2, .write, .descriptor 1⟩]⟩ := by
    rw [hcommand]
    decide +kernel
  have hmore : ¬ 0 + 1 = (Line.stages (Text.trimmed "nosuch 2>&1 | cat")).length := by
    decide +kernel
  exact ⟨s, v, _, j, hreached, hv, hreports, hcode,
    harrives.not.mpr (not_not.mpr ⟨⟨stage, w, hready⟩, _, hknown, .pipe rfl hmore⟩)⟩

end Session

end TreeShell
