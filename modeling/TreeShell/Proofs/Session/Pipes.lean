import TreeShell.Proofs.Session.Descriptors
import TreeShell.Proofs.Session.Lines
import TreeShell.Proofs.Session.Traces

/-!
# What goes through a pipe

A stage that others follow writes to a stream of its own, a pipe. If it succeeds, the next stage
finds at its input what is left in the pipe, unless the output of the stage counts as redirected:
then it finds nothing, whatever is in the pipe.
-/

namespace TreeShell

open Pool

/-! ## Stages that succeed -/

namespace Job

variable {j j' : Job} {name command : String} {stage : Stage} {cwd : String} {fallback : Nat}
  {defaults : Ends} {redirected : Bool}

/-- A code other than success does not become success. -/
theorem success_ne_of_codeAfter {code : Int} {o : Except ContentError Unit × Job}
    (hne : Action.success ≠ code) : codeAfter code o ≠ (.ok Action.success, j') := fun h =>
  hne (codeAfter_code (congrArg Prod.fst h))

/-- A command that is looked for and succeeds is found, and succeeds. -/
theorem runCommand_eq_success
    (h : j.runCommand name stage cwd fallback = (.ok Action.success, j')) :
    ∃ c, j.session.registry.load j.session.volume.tree name j.session.bin = .ok c ∧
      Action.result (c.program.run (j.contextOf stage cwd)) j = (.ok Action.success, j') := by
  cases hload : j.session.registry.load j.session.volume.tree name j.session.bin with
  | error e =>
    by_cases hcontent : ∃ r, e = .content r
    · obtain ⟨r, rfl⟩ := hcontent
      rw [runCommand_of_content hload] at h
      cases h
    · rw [runCommand_of_error (not_exists.mp hcontent) hload] at h
      exact absurd h (success_ne_of_codeAfter (by decide))
  | ok c =>
    rw [runCommand_of_ok hload] at h
    refine ⟨c, rfl, ?_⟩
    cases hr : Action.result (c.program.run (j.contextOf stage cwd)) j with
    | mk outcome j'' =>
      cases outcome with
      | ok code =>
        rw [runProgram_of_ok hr] at h
        cases h
        rfl
      | error fault =>
        rw [runProgram_of_error hr] at h
        exact absurd h (success_ne_of_codeAfter (by decide))

/-- A stage that succeeds could be made ready, and has no command, or one that succeeds. -/
theorem runStage_eq_success
    (h : j.runStage command defaults = (.ok (Action.success, redirected), j')) :
    ∃ stage w, Stage.resolve command defaults j.session.cwd j.wiring = (.ok stage, w) ∧
      redirected = stage.outputRedirected ∧
        (stage.name = none ∧ j' = j.rewire w ∨
          ∃ name, stage.name = some name ∧
            (j.rewire w).runCommand name stage j.session.cwd defaults.errors =
              (.ok Action.success, j')) := by
  rw [runStage] at h
  cases hr : Stage.resolve command defaults j.session.cwd j.wiring with
  | mk outcome w =>
    rw [hr] at h
    cases outcome with
    | error e =>
      cases e with
      | line e => cases e <;> cases h
      | _ => cases h
    | ok stage =>
      refine ⟨stage, w, rfl, ?_⟩
      dsimp only at h
      cases hname : stage.name with
      | none =>
        rw [hname] at h
        cases h
        exact ⟨rfl, Or.inl ⟨rfl, rfl⟩⟩
      | some name =>
        rw [hname] at h
        dsimp only at h
        cases hc : (j.rewire w).runCommand name stage j.session.cwd defaults.errors with
        | mk result j'' =>
          rw [hc] at h
          cases result with
          | error b => cases h
          | ok code =>
            cases h
            exact ⟨rfl, Or.inr ⟨name, rfl, hc⟩⟩

end Job

namespace Visit

variable {v v' : Visit} {stage : Stage} {es : List Effect}

/-- The streams and the volume when the stage has been made ready. -/
def wired (v : Visit) : Wiring :=
  (Stage.resolve v.command v.defaults v.job.session.cwd v.job.wiring).2

/-- The job when the stage has been made ready. -/
def ready (v : Visit) : Job := v.job.rewire v.wired

/-- The stage can be made ready and succeeds: it has no command, or one whose effects are those of a
list. -/
inductive Succeeds (v : Visit) (stage : Stage) : List Effect → Prop where
  | bare
    (hready : (Stage.resolve v.command v.defaults v.job.session.cwd v.job.wiring).1 = .ok stage)
    (hname : stage.name = none)
    (hrun : v.run = (.ok (Action.success, stage.outputRedirected), v.ready)) : Succeeds v stage []
  | command {name : String} {c : Command} {es : List Effect}
    (hready : (Stage.resolve v.command v.defaults v.job.session.cwd v.job.wiring).1 = .ok stage)
    (hname : stage.name = some name)
    (hload : v.job.session.registry.load v.wired.volume.tree name v.job.session.bin = .ok c)
    (hes : ∀ e ∈ es, c.program.MayDo (v.ready.contextOf stage v.job.session.cwd) e)
    (hrun : v.run =
      (.ok (Action.success, stage.outputRedirected), Effect.applyAll es v.ready)) :
    Succeeds v stage es

/-- Whether the stage exits with success. -/
def isSuccess (v : Visit) : Bool :=
  match v.run.1 with
  | .ok (code, _) => code == Action.success
  | .error _ => false

/-- A stage that succeeds has run to its end. -/
theorem exists_run_of_isSuccess (h : v.isSuccess = true) :
    ∃ redirected j', v.run = (.ok (Action.success, redirected), j') := by
  unfold isSuccess at h
  cases hrun : v.run with
  | mk outcome j' =>
    rw [hrun] at h
    cases outcome with
    | error e => cases h
    | ok r =>
      obtain ⟨code, redirected⟩ := r
      obtain rfl : code = Action.success := eq_of_beq h
      exact ⟨redirected, j', rfl⟩

/-- A stage that ends with success has its redirections ready and does what its command may do. -/
theorem exists_succeeds (hv : v.job.session.Sound) {redirected : Bool} {j' : Job}
    (hrun : v.run = (.ok (Action.success, redirected), j')) : ∃ stage es, v.Succeeds stage es := by
  obtain ⟨stage, w, hresolve, rfl, hcommand⟩ := Job.runStage_eq_success hrun
  have hwired : v.wired = w := congrArg Prod.snd hresolve
  have hready : (Stage.resolve v.command v.defaults v.job.session.cwd v.job.wiring).1 = .ok stage :=
    congrArg Prod.fst hresolve
  rcases hcommand with ⟨hname, rfl⟩ | ⟨name, hname, hcommand⟩
  · exact ⟨stage, [], .bare hready hname (by rw [hrun, ready, hwired])⟩
  · obtain ⟨c, hload, hresult⟩ := Job.runCommand_eq_success hcommand
    have hc : c.program.isDiagnostic = false := by
      obtain ⟨entry, hentry⟩ := Registry.exists_get?_of_load hload
      exact hv.plain entry c hentry
    obtain ⟨hsteps, -⟩ := Program.within_run hc
      ((v.job.rewire w).contextOf stage v.job.session.cwd) (v.job.rewire w)
    rw [hresult] at hsteps
    obtain ⟨es, hes, hlast⟩ := hsteps.exists_trace
    have hjob : v.ready = v.job.rewire w := by rw [ready, hwired]
    refine ⟨stage, es, .command hready hname (by rw [hwired]; exact hload) (by rw [hjob]; exact hes)
      ?_⟩
    rw [hrun, hjob]
    exact congrArg _ hlast.symm

/-- What is common to all stages that succeed. -/
theorem Succeeds.spec (h : v.Succeeds stage es) :
    Stage.resolve v.command v.defaults v.job.session.cwd v.job.wiring = (.ok stage, v.wired) ∧
      v.run = (.ok (Action.success, stage.outputRedirected), Effect.applyAll es v.ready) ∧
        (∀ m text, .write m text ∈ es → ∃ k : Fin 3, m = stage.ends.get k) ∧
          ∀ m, .read m ∈ es → m = stage.ends.input := by
  cases h with
  | bare hready hname hrun =>
    exact ⟨Prod.ext hready rfl, hrun, fun m text hm => (by cases hm), fun m hm => (by cases hm)⟩
  | command hready hname hload hes hrun =>
    refine ⟨Prod.ext hready rfl, hrun, fun m text hm => ?_, fun m hm => (hes _ hm).1⟩
    rcases hes _ hm with hout | herr
    · exact ⟨1, hout⟩
    · exact ⟨2, herr⟩

/-! ## Pipes -/

/-- What the stage finds at its input. -/
def received (v : Visit) : String := v.job.pool.heard (.keeper v.defaults.input)

/-- The stage starts with an input, and with an empty pipe of its own as its output. -/
structure Piped (v : Visit) : Prop where
  input : v.job.pool.Keeps v.defaults.input
  output : v.job.pool.Keeps v.defaults.output
  empty : v.job.pool.heard (.keeper v.defaults.output) = ""
  apart : v.defaults.input ≠ v.defaults.output
  errors : v.job.pool.SameOrApart v.defaults.output v.defaults.errors

/-- The pipe of a stage is empty when its redirections are ready, and each of its streams is the
pipe or apart from it. -/
theorem Piped.wired (h : v.Piped) (hv : v.job.session.Sound)
    (hready : Stage.resolve v.command v.defaults v.job.session.cwd v.job.wiring =
      (.ok stage, v.wired)) :
    v.wired.pool.Keeps v.defaults.output ∧ v.wired.pool.heard (.keeper v.defaults.output) = "" ∧
      ∀ k : Fin 3, v.wired.pool.SameOrApart v.defaults.output (stage.ends.get k) := by
  obtain ⟨parts, table, -, hconnect, rfl⟩ := Stage.resolve_eq_ok hready
  have hstage := Stage.ready_of_connectAll hv.wellFormed hconnect
  have hgrows : v.job.pool.GrowsTo v.wired.pool := by
    have hsteps := Stage.steps_resolve v.job v.command v.defaults v.job.session.cwd
    rw [hready] at hsteps
    exact hsteps.pool
  refine ⟨hgrows.keeps h.output, ?_, fun k => ?_⟩
  · obtain ⟨s, hs, -⟩ := h.output
    rw [← h.empty, heard, heard, hs, hstage.streams _ s hs]
  · obtain ⟨b, hb, hstream⟩ := hstage.bound k
    rw [hstream]
    cases b with
    | standard m =>
      have hinput : v.wired.pool.SameOrApart v.defaults.output v.defaults.input := by
        rw [SameOrApart, (hgrows.keeps h.input).endOf_eq]
        exact Or.inr ⟨End.noConfusion, fun he => h.apart (End.keeper.inj he)⟩
      fin_cases m
      · exact hinput
      · exact Or.inl rfl
      · exact hgrows.sameOrApart h.errors
    | opened i =>
      -- streams that are opened come after the pipe
      have hlater : v.defaults.output <
          Redirection.openedStream v.job.pool.next parts.redirections i :=
        Nat.lt_of_lt_of_le h.output.takes (Nat.le_add_right _ _)
      obtain ⟨r, path, -, -, ⟨-, text, hkept⟩ | ⟨-, hleads, -⟩⟩ := hstage.opened hb
      · rw [SameOrApart, Binding.stream, (endOf_of_stream hkept).1 rfl]
        exact Or.inr ⟨End.noConfusion, fun he => Nat.ne_of_gt hlater (End.keeper.inj he)⟩
      · rw [SameOrApart, Binding.stream, (endOf_of_stream hleads).2 _ _ rfl]
        exact Or.inr ⟨End.noConfusion, End.noConfusion⟩

/-- All that a stage that succeeds wrote to its pipe is what it read back and what is left there. -/
theorem Succeeds.accounts (h : v.Succeeds stage es) (hpiped : v.Piped)
    (hv : v.job.session.Sound) :
    Effect.readBack v.defaults.output es v.ready ++ v.run.2.pool.heard (.keeper v.defaults.output) =
      Effect.written v.defaults.output es := by
  obtain ⟨hready, hrun, hwrites, -⟩ := h.spec
  obtain ⟨hkeeps, hempty, hends⟩ := hpiped.wired hv hready
  have hstreams : ∀ m text, .write m text ∈ es → v.ready.pool.SameOrApart v.defaults.output m := by
    intro m text hm
    obtain ⟨k, rfl⟩ := hwrites m text hm
    exact hends k
  have haccount := Effect.heard_applyAll (j := v.ready) hkeeps hstreams
  have hstart : v.ready.pool.heard (.keeper v.defaults.output) = "" := hempty
  rw [hrun, haccount, hstart, String.empty_append]

/-- Nothing is read back from the pipe if the input of the command does not lead there. -/
theorem Succeeds.readBack_eq_empty (h : v.Succeeds stage es)
    (hinput : stage.ends.input ≠ v.defaults.output) :
    Effect.readBack v.defaults.output es v.ready = "" := by
  obtain ⟨-, -, -, hreads⟩ := h.spec
  refine Effect.readBack_eq_empty (fun e he hread => hinput ?_) _
  rw [hread] at he
  exact (hreads _ he).symm

/-- What goes through the pipe between a stage with some effects and the next one. -/
structure Passes (v : Visit) (stage : Stage) (es : List Effect) (v' : Visit) : Prop where
  /-- What was written to the pipe is what was read back and what is left there. -/
  accounts : Effect.readBack v.defaults.output es v.ready ++
    v.run.2.pool.heard (.keeper v.defaults.output) = Effect.written v.defaults.output es
  /-- Nothing is read back if the input of the command does not lead to the pipe. -/
  unread : stage.ends.input ≠ v.defaults.output →
    Effect.readBack v.defaults.output es v.ready = ""
  /-- The next stage finds what is left in the pipe, and nothing if a redirection is for the
  output. -/
  received : v'.received =
    if 1 ∈ stage.redirected then "" else v.run.2.pool.heard (.keeper v.defaults.output)
  /-- It finds all that was written to the pipe just if nothing was written there, where a
  redirection is for the output, or nothing was read back, where none is. -/
  whole : v'.received = Effect.written v.defaults.output es ↔
    if 1 ∈ stage.redirected then Effect.written v.defaults.output es = ""
    else Effect.readBack v.defaults.output es v.ready = ""

end Visit

/-! ## From stage to stage -/

namespace Job

variable {output errors : Nat} {piped : String} {j : Job}

/-- A stream that is put in with a text keeps it. -/
theorem keeps_addKeeping (j : Job) (text : String) :
    (j.addKeeping text).1.pool.Keeps (j.addKeeping text).2 ∧
      (j.addKeeping text).1.pool.heard (.keeper (j.addKeeping text).2) = text := by
  have hlast : (j.addKeeping text).1.pool.streams[(j.addKeeping text).2]? = some ⟨.kept, text⟩ := by
    simp [addKeeping, Pool.addKeeping, Pool.next]
  exact ⟨⟨_, hlast, rfl⟩, by rw [heard, hlast]; rfl⟩

/-- The last stage receives what was piped to it. -/
theorem received_lastVisit (j : Job) (output errors : Nat) (piped command : String) :
    (j.lastVisit output errors piped command).received = piped :=
  (j.keeps_addKeeping piped).2

/-- A stage before the last one receives what was piped to it. -/
theorem received_visit (j : Job) (errors : Nat) (piped command : String) :
    (j.visit errors piped command).received = piped := by
  obtain ⟨hkeeps, hheard⟩ := j.keeps_addKeeping piped
  exact (heard_append hkeeps ⟨.kept, ""⟩).trans hheard

/-- The first stage finds at its input what is handed on to it. -/
theorem exists_first (j : Job) (output errors : Nat) (piped command : String) (rest : List String) :
    ∃ v, (j.visits output errors piped (command :: rest))[0]? = some v ∧ v.received = piped := by
  cases rest with
  | nil =>
    refine ⟨_, ?_, j.received_lastVisit output errors piped command⟩
    rw [visits]
    rfl
  | cons next rest =>
    refine ⟨_, ?_, j.received_visit errors piped command⟩
    rw [visits]
    rfl

/-- The stages behind one are visited if it succeeds, with what it hands on. -/
theorem visits_next_getElem? {command next : String} {rest : List String} {i : Nat} {v : Visit} :
    (j.visits output errors piped (command :: next :: rest))[i + 1]? = some v ↔
      ∃ redirected j', (j.visit errors piped command).run =
          (.ok (Action.success, redirected), j') ∧
        (visits output errors ((j.visit errors piped command).handOn redirected j').1
          (next :: rest) ((j.visit errors piped command).handOn redirected j').2)[i]? = some v := by
  rw [visits, List.getElem?_cons_succ]
  cases (j.visit errors piped command).run with
  | mk outcome j' =>
    cases outcome with
    | error e => simp
    | ok r =>
      obtain ⟨code, redirected⟩ := r
      by_cases hzero : code = Action.success
      · simp [hzero]
      · simp [hzero]

/-- A stage that succeeds and is not the last is followed by another, to which it hands on. -/
theorem exists_next {commands : List String} {i : Nat} {v : Visit} {redirected : Bool} {j' : Job}
    (hj : j.session.Sound) (hv : (j.visits output errors piped commands)[i]? = some v)
    (hnext : i + 1 < commands.length) (hrun : v.run = (.ok (Action.success, redirected), j')) :
    (∃ j₀ piped₀ command, Steps Effect.Plain j j₀ ∧ v = j₀.visit errors piped₀ command) ∧
      ∃ v', (j.visits output errors piped commands)[i + 1]? = some v' ∧
        v'.received = (v.handOn redirected j').1 := by
  induction commands generalizing i piped j with
  | nil => cases hnext
  | cons command rest ih =>
    cases rest with
    | nil =>
      rw [List.length_singleton] at hnext
      omega
    | cons next rest =>
      cases i with
      | zero =>
        have hfirst : v = j.visit errors piped command := by
          rw [visits, List.getElem?_cons_zero] at hv
          exact (Option.some.inj hv).symm
        subst hfirst
        obtain ⟨v', hv', hreceived⟩ := exists_first
          ((j.visit errors piped command).handOn redirected j').2 output errors
          ((j.visit errors piped command).handOn redirected j').1 next rest
        exact ⟨⟨j, piped, command, .refl j, rfl⟩, v',
          visits_next_getElem?.mpr ⟨redirected, j', hrun, hv'⟩, hreceived⟩
      | succ i =>
        obtain ⟨redirected₀, j₁, hrun₀, hrest⟩ := visits_next_getElem?.mp hv
        have hfirst := (j.steps_visit errors piped command).mono fun _ => Effect.Between.plain
        have hsteps := (Visit.steps_run _ (hfirst.sound hj)).mono fun _ => Job.StageMayDo.plain
        rw [hrun₀] at hsteps
        have hon := (hfirst.trans hsteps).trans
          ((steps_handOn (j.visit errors piped command) redirected₀ j₁).mono fun _ =>
            Effect.Between.plain)
        obtain ⟨⟨j₀, piped₀, command₀, hcome, hvisit⟩, v', hv', hreceived⟩ :=
          ih (hon.sound hj) hrest (Nat.lt_of_succ_lt_succ hnext)
        exact ⟨⟨j₀, piped₀, command₀, hon.trans hcome, hvisit⟩, v',
          visits_next_getElem?.mpr ⟨redirected₀, j₁, hrun₀, hv'⟩, hreceived⟩

/-- A stage that others follow starts with an input and a pipe, if its errors go elsewhere. -/
theorem piped_visit (j : Job) (errors : Nat) (piped command : String)
    (herrors : j.pool.endOf errors ≠ .nowhere)
    (hold : ∀ n, j.pool.endOf errors = .keeper n → n < j.pool.next) :
    (j.visit errors piped command).Piped := by
  obtain ⟨hinput, -⟩ := j.keeps_addKeeping piped
  obtain ⟨houtput, hempty⟩ := (j.addKeeping piped).1.keeps_addKeeping ""
  have hlt : (j.addKeeping piped).2 < ((j.addKeeping piped).1.addKeeping "").2 := hinput.takes
  have hgrows : j.pool.GrowsTo (j.visit errors piped command).job.pool :=
    (j.pool.growsTo_addKeeping piped).trans ((j.addKeeping piped).1.pool.growsTo_addKeeping "")
  have hend := hgrows.endOf_eq herrors
  refine ⟨((j.addKeeping piped).1.pool.growsTo_addKeeping "").keeps hinput, houtput, hempty,
    Nat.ne_of_lt hlt, Or.inr ⟨?_, ?_⟩⟩
  · rw [visit] at hend ⊢
    rw [hend]
    exact herrors
  · rw [visit] at hend ⊢
    rw [hend]
    intro he
    exact absurd (Nat.lt_trans (hold _ he) hlt) (Nat.lt_irrefl _)

end Job

namespace Visit

variable {v v' : Visit} {stage : Stage} {es : List Effect}

/-- A stage that succeeds passes on what the next one receives. -/
theorem Succeeds.passes (h : v.Succeeds stage es) (hpiped : v.Piped) (hv : v.job.session.Sound)
    (hreceived : v'.received = (v.handOn stage.outputRedirected v.run.2).1) :
    v.Passes stage es v' := by
  have haccounts := h.accounts hpiped hv
  have hfound : v'.received =
      if 1 ∈ stage.redirected then "" else v.run.2.pool.heard (.keeper v.defaults.output) := by
    rw [hreceived, handOn, Stage.outputRedirected]
    simp only [List.contains_iff_mem]
    split
    · rfl
    · exact read_eq_heard _ _
  refine ⟨haccounts, h.readBack_eq_empty, hfound, ?_⟩
  rw [hfound, ← haccounts]
  split
  · exact eq_comm
  · rw [← String.toList_inj, String.toList_append, List.self_eq_append_left,
      String.toList_eq_nil_iff]

end Visit

namespace Session

variable {s : Session}

/-- A stage of a line that succeeds and is not the last has a pipe, and is followed by a stage that
finds at its input what is handed on. -/
theorem piped_of_success (h : s.Sound) {line : String} {d : Display} {i : Nat} {v : Visit}
    {redirected : Bool} {j' : Job} (hv : (s.visits line d)[i]? = some v)
    (hnext : i + 1 < (Line.stages (Text.trimmed line)).length)
    (hrun : v.run = (.ok (Action.success, redirected), j')) :
    v.Piped ∧ ∃ v', (s.visits line d)[i + 1]? = some v' ∧
      v'.received = (v.handOn redirected j').1 := by
  rw [visits_eq] at hv ⊢
  obtain ⟨⟨j₀, piped₀, command, hcome, rfl⟩, hfollowed⟩ :=
    Job.exists_next (sound_firstJob h line d) hv hnext hrun
  obtain ⟨hend, htakes⟩ := endOf_errors_of_growsTo hcome.pool
  refine ⟨j₀.piped_visit (d.pool.add (.stream d.output)).1.next piped₀ command ?_ fun n hn => ?_,
    hfollowed⟩
  · rw [hend]
    exact htakes.ne_nowhere
  · rw [hend] at hn
    rw [hn] at htakes
    exact htakes

/-- Whatever line is run, a stage that succeeds and is not the last is followed by a stage that
finds what is left in the pipe between them, or nothing, if a redirection of the first is for its
output. So it finds all that was written to the pipe, through whichever descriptor, just if nothing
was written there in the latter case, and nothing was read back in the former. -/
theorem pipe_whole_iff (h : s.Sound) (line : String) (d : Display) {i : Nat} {v : Visit}
    {redirected : Bool} {j' : Job} (hv : (s.visits line d)[i]? = some v)
    (hnext : i + 1 < (Line.stages (Text.trimmed line)).length)
    (hrun : v.run = (.ok (Action.success, redirected), j')) :
    ∃ v', (s.visits line d)[i + 1]? = some v' ∧ (∃ stage es, v.Succeeds stage es) ∧
      ∀ stage es, v.Succeeds stage es → v.Passes stage es v' := by
  have hsound := sound_of_mem_visits h (List.mem_of_getElem? hv)
  obtain ⟨hpiped, v', hv', hreceived⟩ := piped_of_success h hv hnext hrun
  refine ⟨v', hv', Visit.exists_succeeds hsound hrun, fun stage es hes => ?_⟩
  refine hes.passes hpiped hsound ?_
  obtain ⟨-, hrun', -⟩ := hes.spec
  rw [hrun] at hrun'
  cases hrun'
  rw [hreceived, hrun]

/-- After the usual boot, the second stage finds what the first one wrote. -/
theorem pipe_whole_of_echo :
    ∃ s : Session, s.Reached ∧ ∃ v v', (s.visits "echo hi | cat" .apart)[0]? = some v ∧
      (s.visits "echo hi | cat" .apart)[1]? = some v' ∧ (∃ stage es, v.Succeeds stage es) ∧
        ∀ stage es, v.Succeeds stage es → v.Passes stage es v' := by
  have hfirst :
      (Boot.usualSession.visits "echo hi | cat" .apart)[0]?.any Visit.isSuccess = true := by
    decide +kernel
  obtain ⟨v, hv, hsuccess⟩ := (Option.any_eq_true _ _).mp hfirst
  obtain ⟨redirected, j', hrun⟩ := Visit.exists_run_of_isSuccess hsuccess
  have hreached : Boot.usualSession.Reached := .boot Boot.usual_eq
  obtain ⟨v', hv', hpasses⟩ :=
    pipe_whole_iff hreached.sound "echo hi | cat" .apart hv (by decide +kernel) hrun
  exact ⟨_, hreached, v, v', hv, hv', hpasses⟩

/-- A redirection that leads the output to where it leads counts as one, and what is in the pipe is
not handed on. -/
theorem pipe_lost_by_copy :
    ∃ s : Session, s.Reached ∧ ∃ v v' stage es,
      (s.visits "echo hi 1>&1 | cat" .apart)[0]? = some v ∧
        (s.visits "echo hi 1>&1 | cat" .apart)[1]? = some v' ∧ v.Succeeds stage es ∧
          stage.ends.output = v.defaults.output ∧
            Effect.written v.defaults.output es = "hi\n" ∧ v'.received = "" := by
  let s : Session := Boot.usualSession
  have hfacts : (((s.visits "echo hi 1>&1 | cat" .apart)[0]?.any fun v =>
      v.isSuccess && v.run.2.pool.heard (.keeper v.defaults.output) == "hi\n" &&
        (Stage.resolve v.command v.defaults v.job.session.cwd v.job.wiring).1.toOption.any
          fun stage => stage.ends.output == v.defaults.output &&
            stage.ends.input != v.defaults.output) &&
      (s.visits "echo hi 1>&1 | cat" .apart)[1]?.any fun v' => v'.received == "") = true := by
    decide +kernel
  simp only [Bool.and_eq_true, beq_iff_eq, bne_iff_ne, Option.any_eq_true] at hfacts
  obtain ⟨⟨v, hv, ⟨hsuccess, hleft⟩, stage', hstage', houtput, hinput⟩, v', hv', hnothing⟩ := hfacts
  have hreached : s.Reached := .boot Boot.usual_eq
  obtain ⟨redirected, j', hrun⟩ := Visit.exists_run_of_isSuccess hsuccess
  obtain ⟨hpiped, -⟩ := piped_of_success hreached.sound hv (by decide +kernel) hrun
  have hsound := sound_of_mem_visits hreached.sound (List.mem_of_getElem? hv)
  obtain ⟨stage, es, hes⟩ := Visit.exists_succeeds hsound hrun
  obtain ⟨hready, -⟩ := hes.spec
  rw [hready] at hstage'
  obtain rfl : stage = stage' := Option.some.inj hstage'
  have haccounts := hes.accounts hpiped hsound
  rw [hes.readBack_eq_empty hinput, hleft, String.empty_append] at haccounts
  exact ⟨s, hreached, v, v', stage, es, hv, hv', hes, houtput, haccounts.symm, hnothing⟩

end Session

end TreeShell
