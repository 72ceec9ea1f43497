import TreeShell.Proofs.Session.Home
import TreeShell.Proofs.Session.TwinPrograms

/-!
# Stages with and without a pipe

A stage that is made ready from streams that go with one another has such streams in the end, and
refuses the same redirections. So it comes to the same code with a pipe and without it, unless it
reads back what it has written to the pipe.
-/

namespace TreeShell

open Pool

namespace Splice

variable {σ : Splice} {n : Nat}

/-! ## Making ready -/

/-- Two wirings over the same volume, with joined pools, while the pipe is empty. -/
structure Wired (σ : Splice) (w w' : Wiring) : Prop where
  volume : w'.volume = w.volume
  joins : σ.Joins w.pool w'.pool
  dry : w.pool.heard (.keeper σ.pipe) = ""

/-- Two streams that go with one another, and that a stage may use. -/
def Streams (σ : Splice) (n n' : Nat) (w w' : Wiring) : Prop :=
  n' = σ.map n ∧ σ.Port w.pool w'.pool n

/-- Two tables lead to streams that go with one another. -/
structure Tables (σ : Splice) (table table' : Table) (w w' : Wiring) : Prop where
  streams : ∀ k, table'.get? k = (table.get? k).map σ.map
  ports : ∀ k n, table.get? k = some n → σ.Port w.pool w'.pool n

/-- Two stages are the same but for their streams, which go with one another. -/
structure Stages (σ : Splice) (stage stage' : Stage) (w w' : Wiring) : Prop where
  same : stage' = { stage with ends := stage.ends.map σ.map }
  ports : ∀ k, σ.Port w.pool w'.pool (stage.ends.get k)

/-- The same is refused, or nothing and what is made ready goes together. -/
inductive Meets {α : Type} (σ : Splice) (R : α → α → Wiring → Wiring → Prop) :
    Except StageError α × Wiring → Except StageError α × Wiring → Prop where
  | ok {a a' : α} {w w' : Wiring} (hw : σ.Wired w w') (ha : R a a' w w') :
    Meets σ R (.ok a, w) (.ok a', w')
  | error (e : StageError) {w w' : Wiring} (hw : σ.Wired w w') :
    Meets σ R (.error e, w) (.error e, w')

variable {table table' : Table} {w w' u u' : Wiring} {r : Redirection} {path cwd : String}

/-- Tables go on matching while the pools grow. -/
theorem Tables.mono (h : σ.Tables table table' w w') (hp : w.pool.GrowsTo u.pool)
    (hp' : w'.pool.GrowsTo u'.pool) : σ.Tables table table' u u' :=
  ⟨h.streams, fun k n hn => (h.ports k n hn).mono hp hp'⟩

/-- Tables match with a further descriptor if its streams do. -/
theorem Tables.set (h : σ.Tables table table' w w') (hn : σ.Port w.pool w'.pool n) (k : Nat) :
    σ.Tables (table.set k n) (table'.set k (σ.map n)) w w' := by
  refine ⟨fun i => ?_, fun i m hm => ?_⟩
  · rw [OrderedMap.get?_set, OrderedMap.get?_set, h.streams]
    split
    · rfl
    · rfl
  · rw [OrderedMap.get?_set] at hm
    split at hm
    · cases hm
      exact hn
    · exact h.ports i m hm

/-- The tables that two stages start with. -/
theorem tables_ofEnds {defaults : Ends} (h : ∀ k, σ.Port w.pool w'.pool (defaults.get k)) :
    σ.Tables (Table.ofEnds defaults) (Table.ofEnds (defaults.map σ.map)) w w' := by
  refine ⟨fun k => ?_, fun k n hn => ?_⟩
  · rw [Redirection.get?_ofEnds _ 0, Redirection.get?_ofEnds _ 0, Redirection.binding?]
    split
    · exact congrArg some (Ends.get_map σ.map defaults _)
    · rfl
  · rw [Redirection.get?_ofEnds _ 0, Redirection.binding?] at hn
    split at hn
    · cases hn
      exact h _
    · cases hn

/-- The streams that two stages have in the end. -/
theorem Tables.ends (h : σ.Tables table table' w w') {defaults : Ends}
    (hports : ∀ k, σ.Port w.pool w'.pool (defaults.get k)) :
    table'.ends (defaults.map σ.map) = (table.ends defaults).map σ.map ∧
      ∀ k, σ.Port w.pool w'.pool ((table.ends defaults).get k) := by
  have hget : ∀ k : Fin 3, (table'.get? k).getD ((defaults.map σ.map).get k) =
      σ.map ((table.get? k).getD (defaults.get k)) := fun k => by
    rw [h.streams, Ends.get_map]
    cases table.get? k <;> rfl
  refine ⟨?_, fun k => ?_⟩
  · rw [Ends.map, Table.ends]
    exact congr (congr (congrArg Ends.mk (hget 0)) (hget 1)) (hget 2)
  · rw [Table.get_ends]
    cases hk : table.get? k with
    | none => exact hports k
    | some n => exact h.ports k n hk

/-- Wirings go on matching with any volume in both. -/
theorem Wired.perform (h : σ.Wired w w') (volume : Volume) :
    σ.Wired { w with volume } { w' with volume } :=
  ⟨rfl, h.joins, h.dry⟩

/-- The same stream is opened in both wirings. -/
theorem Wired.append (h : σ.Wired w w') (s : Stream) :
    σ.Wired { w with pool := { w.pool with streams := w.pool.streams ++ [s] } }
      { w' with pool := { w'.pool with streams := w'.pool.streams ++ [s] } } := by
  have hpipe : σ.pipe < w.pool.next := h.joins.pipe.takes
  refine ⟨h.volume, h.joins.append s, ?_⟩
  rw [heard_append_eq, if_neg fun he => Nat.ne_of_lt hpipe (End.keeper.inj he), h.dry]

/-- A file is opened alike on both sides. -/
theorem meets_openFile (h : σ.Wired w w') (r : Redirection) (path cwd : String) :
    σ.Meets σ.Streams (r.openFile path cwd w) (r.openFile path cwd w') := by
  rcases r.operator_cases with hop | hop | hop
  · rw [Redirection.openFile, Redirection.openFile, hop]
    exact .error _ h
  · rw [Redirection.openFile, Redirection.openFile, hop, h.volume]
    dsimp only
    cases w.volume.tree.content path cwd with
    | error e => exact .error _ h
    | ok content =>
      exact .ok (h.append _) ⟨h.joins.map_next.symm, h.joins.port_addKeeping content.plain⟩
  · rw [Redirection.openFile_of_output hop, Redirection.openFile_of_output hop, h.volume]
    cases w.volume.perform cwd (.write path (.string "") (r.operator = .append)) with
    | mk outcome volume =>
      cases outcome with
      | error e => exact .error _ (h.perform volume)
      | ok _ =>
        exact .ok ((h.perform volume).append _)
          ⟨h.joins.map_next.symm, h.joins.port_addFile path cwd⟩

/-- A redirection is carried out alike on both sides. -/
theorem meets_connect (h : σ.Wired w w') (ht : σ.Tables table table' w w') (r : Redirection)
    (cwd : String) : σ.Meets σ.Streams (r.connect table cwd w) (r.connect table' cwd w') := by
  unfold Redirection.connect
  split
  · exact .error _ h
  · next n _ hn =>
    rw [ht.streams]
    cases hget : table.get? n with
    | none => exact .error _ h
    | some m => exact .ok h ⟨rfl, ht.ports n m hget⟩
  · exact meets_openFile h r _ cwd

/-- A redirection only makes the pool grow. -/
theorem growsTo_connect (r : Redirection) (table : Table) (cwd : String) (w : Wiring) :
    w.pool.GrowsTo (r.connect table cwd w).2.pool :=
  (Redirection.steps_connect default r table cwd w).pool

/-- Several redirections only make the pool grow. -/
theorem growsTo_connectAll (rs : List Redirection) (table : Table) (cwd : String) (w : Wiring) :
    w.pool.GrowsTo (Redirection.connectAll cwd rs table w).2.pool :=
  (Redirection.steps_connectAll default cwd rs table w).pool

/-- Several redirections are carried out alike on both sides. -/
theorem meets_connectAll (h : σ.Wired w w') (ht : σ.Tables table table' w w') (cwd : String)
    (rs : List Redirection) :
    σ.Meets σ.Tables (Redirection.connectAll cwd rs table w)
      (Redirection.connectAll cwd rs table' w') := by
  induction rs generalizing table table' w w' with
  | nil => exact .ok h ht
  | cons r rest ih =>
    have hgrows := growsTo_connect r table cwd w
    have hgrows' := growsTo_connect r table' cwd w'
    have hfirst := meets_connect h ht r cwd
    rw [Redirection.connectAll, Redirection.connectAll]
    generalize r.connect table cwd w = first at hfirst hgrows
    generalize r.connect table' cwd w' = first' at hfirst hgrows'
    cases hfirst with
    | error e hw => exact .error e hw
    | ok hw ha =>
      obtain ⟨rfl, hport⟩ := ha
      exact ih hw ((ht.mono hgrows hgrows').set hport r.descriptor)

/-- A stage is made ready alike, if its streams go with one another. -/
theorem meets_resolve (h : σ.Wired w w') {defaults : Ends}
    (hports : ∀ k, σ.Port w.pool w'.pool (defaults.get k)) (command cwd : String) :
    σ.Meets σ.Stages (Stage.resolve command defaults cwd w)
      (Stage.resolve command (defaults.map σ.map) cwd w') := by
  unfold Stage.resolve
  cases Parts.ofStage command with
  | error e => exact .error _ h
  | ok parts =>
    have hgrows := growsTo_connectAll parts.redirections (Table.ofEnds defaults) cwd w
    have hgrows' := growsTo_connectAll parts.redirections (Table.ofEnds (defaults.map σ.map)) cwd w'
    have hall := meets_connectAll h (tables_ofEnds hports) cwd parts.redirections
    dsimp only
    generalize Redirection.connectAll cwd parts.redirections _ w = all at hall hgrows
    generalize Redirection.connectAll cwd parts.redirections _ w' = all' at hall hgrows'
    cases hall with
    | error e hw => exact .error e hw
    | ok hw ht =>
      obtain ⟨hends, hready⟩ := ht.ends fun k => (hports k).mono hgrows hgrows'
      exact .ok hw ⟨by rw [hends], hready⟩

end Splice

/-! ## Running -/

namespace Job

/-- A code comes through alike if the reports before it do. -/
theorem codeAfter_eq {code : Int} {o o' : Except ContentError Unit × Job} (h : o.1 = o'.1) :
    (codeAfter code o).1 = (codeAfter code o').1 := by
  obtain ⟨outcome, j⟩ := o
  obtain ⟨outcome', j'⟩ := o'
  obtain rfl : outcome = outcome' := h
  cases outcome <;> rfl

end Job

namespace Splice.Twins

variable {σ : Splice} {stage : Stage} {j j' : Job}

/-- A failure is reported alike, and the code after the report is the same. -/
theorem codeAfter {ends : Ends} (h : σ.Twins ends j j') (code : Int) (text : String) :
    (Job.codeAfter code (j.report ends.errors σ.errors text)).1 =
        (Job.codeAfter code (j'.report (ends.map σ.map).errors σ.errors text)).1 ∧
      σ.Paired (Job.codeAfter code (j.report ends.errors σ.errors text)).2
        (Job.codeAfter code (j'.report (ends.map σ.map).errors σ.errors text)).2 := by
  obtain ⟨houtcome, hpaired⟩ := h.paired.report (h.ports 2) text
  rw [Job.codeAfter_job, Job.codeAfter_job]
  exact ⟨Job.codeAfter_eq houtcome, hpaired⟩

/-- A command that is found comes to the same code, unless it reads back what it has written to the
pipe. -/
theorem runProgram {c : Command} {ctx : Context} (h : σ.Twins ctx.ends j j')
    (hdry : ctx.ends.input = σ.pipe → j.pool.heard (.keeper σ.pipe) = "")
    (hc : c.program.isDiagnostic = false)
    (hreads : c.program = .cat → "-" ∈ ctx.arguments.tail → ctx.ends.input ≠ σ.pipe)
    (name : String) :
    (j.runProgram c name ctx σ.errors).1 = (j'.runProgram c name (ctx.without σ) σ.errors).1 ∧
      σ.Paired (j.runProgram c name ctx σ.errors).2
        (j'.runProgram c name (ctx.without σ) σ.errors).2 := by
  obtain ⟨outcome, k, k', hr, hr', htwins⟩ :=
    (Program.run_atFirst hc hreads j j' h hdry).exists_results
  cases outcome with
  | ok code =>
    rw [Job.runProgram_of_ok hr, Job.runProgram_of_ok hr']
    exact ⟨rfl, htwins.paired⟩
  | error fault =>
    rw [Job.runProgram_of_error hr, Job.runProgram_of_error hr']
    exact (htwins.note .error .shell _).codeAfter Action.failure _

/-- A command that is looked for is found in both jobs or in neither, and comes to the same. -/
theorem runCommand (h : σ.Twins stage.ends j j')
    (hdry : stage.ends.input = σ.pipe → j.pool.heard (.keeper σ.pipe) = "")
    (hj : j.session.Sound) {name : String}
    (hreads : ∀ c, j.session.registry.load j.session.volume.tree name j.session.bin = .ok c →
      c.program = .cat → "-" ∈ (Options.sort stage.arguments).1.tail → stage.ends.input ≠ σ.pipe)
    (cwd : String) :
    (j.runCommand name stage cwd σ.errors).1 =
        (j'.runCommand name { stage with ends := stage.ends.map σ.map } cwd σ.errors).1 ∧
      σ.Paired (j.runCommand name stage cwd σ.errors).2
        (j'.runCommand name { stage with ends := stage.ends.map σ.map } cwd σ.errors).2 := by
  have hsame : j'.session = j.session := h.paired.session
  cases hload : j.session.registry.load j.session.volume.tree name j.session.bin with
  | ok c =>
    have hload' := hload
    rw [← hsame] at hload'
    have hcontext : j'.contextOf { stage with ends := stage.ends.map σ.map } cwd =
        (j.contextOf stage cwd).without σ := by
      rw [Job.contextOf, hsame]
      rfl
    obtain ⟨entry, hentry⟩ := Registry.exists_get?_of_load hload
    rw [Job.runCommand_of_ok hload, Job.runCommand_of_ok hload', hcontext]
    have htwins : σ.Twins (j.contextOf stage cwd).ends j j' := h
    exact htwins.runProgram hdry (hj.plain entry c hentry) (hreads c hload) name
  | error e =>
    have hload' := hload
    rw [← hsame] at hload'
    by_cases hcontent : ∃ r, e = .content r
    · obtain ⟨r, rfl⟩ := hcontent
      rw [Job.runCommand_of_content hload, Job.runCommand_of_content hload']
      exact ⟨rfl, h.paired⟩
    · have hne : ∀ r, e ≠ .content r := not_exists.mp hcontent
      rw [Job.runCommand_of_error hne hload, Job.runCommand_of_error hne hload']
      exact (h.note .warning .loader e.message).codeAfter Action.unknown _

end Splice.Twins

/-- The stage runs `cat` on operands of which one after the first is a dash, and its input is bound
to the pipe that it has as its output. -/
def Visit.ReadsBack (v : Visit) : Prop :=
  ∃ stage w name c,
    Stage.resolve v.command v.defaults v.job.session.cwd v.job.wiring = (.ok stage, w) ∧
      stage.name = some name ∧
        v.job.session.registry.load w.volume.tree name v.job.session.bin = .ok c ∧
          c.program = .cat ∧ "-" ∈ (Options.sort stage.arguments).1.tail ∧
            stage.ends.input = v.defaults.output

/-- A stage comes to the same with a pipe and without it, unless it reads back what it has written
to the pipe. -/
theorem Splice.Twins.run {σ : Splice} {v : Visit} {j' : Job} (h : σ.Twins v.defaults v.job j')
    (hv : v.job.session.Sound) (hpipe : v.defaults.output = σ.pipe)
    (herrors : v.defaults.errors = σ.errors)
    (hdry : v.job.pool.heard (.keeper σ.pipe) = "") (hreads : ¬ v.ReadsBack) :
    v.run.1 = (Visit.run ⟨v.command, v.defaults.map σ.map, j'⟩).1 ∧
      σ.Paired v.run.2 (Visit.run ⟨v.command, v.defaults.map σ.map, j'⟩).2 := by
  obtain ⟨command, defaults, j⟩ := v
  dsimp only at *
  have hsame : j'.session = j.session := h.paired.session
  have hwired : σ.Wired j.wiring j'.wiring :=
    ⟨congrArg Session.volume hsame, h.paired.joins, hdry⟩
  have hsteps := Stage.steps_resolve j command defaults j.session.cwd
  have hmeets := Splice.meets_resolve hwired h.ports command j.session.cwd
  have herrors' : (defaults.map σ.map).errors = σ.errors := by
    rw [Ends.map, herrors, σ.map_errors]
  -- the jobs when the stage has been made ready, or has been refused
  have hpaired : ∀ {w w' : Wiring}, σ.Wired w w' → σ.Paired (j.rewire w) (j'.rewire w') :=
    fun {w w'} hw => ⟨by rw [Job.rewire, Job.rewire, hsame, hw.volume], hw.joins⟩
  have hreport : ∀ {w w' : Wiring} (text : String), σ.Wired w w' →
      σ.Paired ((j.rewire w).write defaults.errors text).2
        ((j'.rewire w').write (defaults.map σ.map).errors text).2 := by
    intro w w' text hw
    have hwrite := ((hpaired hw).write .errors text).2
    rw [σ.map_errors] at hwrite
    rw [herrors, herrors']
    exact hwrite
  rw [Visit.run, Visit.run, Job.runStage, Job.runStage, hsame]
  dsimp only
  cases hr : Stage.resolve command defaults j.session.cwd j.wiring with
  | mk outcome w =>
    rw [hr] at hmeets hsteps
    generalize Stage.resolve command (defaults.map σ.map) j.session.cwd j'.wiring = resolved'
      at hmeets
    cases hmeets with
    | error e hw =>
      cases e with
      | content r => exact ⟨rfl, hpaired hw⟩
      | line e =>
        cases e with
        | numeral r => exact ⟨rfl, hpaired hw⟩
        | _ => exact ⟨rfl, hreport _ hw⟩
      | _ => exact ⟨rfl, hreport _ hw⟩
    | @ok stage _ _ w' hw hstage =>
      obtain ⟨rfl, hports⟩ := hstage
      dsimp only
      cases hname : stage.name with
      | none => exact ⟨rfl, hpaired hw⟩
      | some name =>
        have hback : ∀ c, j.session.registry.load w.volume.tree name j.session.bin = .ok c →
            c.program = .cat → "-" ∈ (Options.sort stage.arguments).1.tail →
              stage.ends.input ≠ σ.pipe := fun c hload hc hdash hinput =>
          hreads ⟨stage, w, name, c, hr, hname, hload, hc, hdash, hinput.trans hpipe.symm⟩
        have htwins : σ.Twins stage.ends (j.rewire w) (j'.rewire w') := ⟨hpaired hw, hports⟩
        obtain ⟨hcode, hrun⟩ := htwins.runCommand (fun _ => hw.dry) (hsteps.plain.sound hv) hback
          j.session.cwd
        rw [herrors, herrors']
        exact ⟨congrArg (Except.map (·, stage.outputRedirected)) hcode, hrun⟩

end TreeShell
