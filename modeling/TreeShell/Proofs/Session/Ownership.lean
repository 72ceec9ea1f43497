import TreeShell.Proofs.Session.Home
import TreeShell.Proofs.Session.Streams

/-!
# Effects and their owners

Every part of the state belongs to some commands: files to `cp`, `mv`, `rm`, `mkdir`, `touch` and to
redirections, variables to `cd` and `export`, aliases to `alias` and `unalias`, the display to
`clear`. A line that runs none of the owners leaves the part as it is. The lines run so far belong
to the session: they grow by the line, whatever is run. And a stage whose command is not found does
nothing to files but to open those of its redirections, and to report into the one that its errors
are bound to.
-/

namespace TreeShell

open TreeShell.Path

/-! ## What effects leave alone -/

namespace Effect

variable {e : Effect}

/-- To copy a file is to change the volume only. -/
theorem session_copy (cwd source path : String) (j : Job) :
    ∃ volume, ((Effect.copy cwd source path).apply j).session = { j.session with volume } := by
  rw [apply]
  split
  · exact ⟨_, rfl⟩
  · exact ⟨_, rfl⟩

/-- To change the working directory is to change the variables only. -/
theorem session_enter (path : String) (j : Job) :
    ∃ env, ((Effect.enter path).apply j).session = { j.session with env } := by
  rw [apply, Job.session_mapSession]
  rcases j.session.changeDirectory_cases path with hs | ⟨target, -, hs⟩
  · exact ⟨j.session.env, hs⟩
  · exact ⟨_, hs⟩

/-- No effect changes the lines run so far. -/
theorem history_apply (e : Effect) (j : Job) : (e.apply j).session.history = j.session.history := by
  cases e with
  | copy cwd source path =>
    obtain ⟨volume, hs⟩ := session_copy cwd source path j
    rw [hs]
  | enter path =>
    obtain ⟨env, hs⟩ := session_enter path j
    rw [hs]
  | _ => rfl

/-- Only `alias` and `unalias` change the aliases. -/
theorem aliases_apply (hset : ∀ name expansion, e ≠ .setAlias name expansion)
    (hremove : ∀ name, e ≠ .removeAlias name) (j : Job) :
    (e.apply j).session.aliases = j.session.aliases := by
  cases e with
  | copy cwd source path =>
    obtain ⟨volume, hs⟩ := session_copy cwd source path j
    rw [hs]
  | enter path =>
    obtain ⟨env, hs⟩ := session_enter path j
    rw [hs]
  | setAlias name expansion => exact absurd rfl (hset name expansion)
  | removeAlias name => exact absurd rfl (hremove name)
  | _ => rfl

/-- Only `clear` has the display cleared. -/
theorem clears_apply (hclear : e ≠ .clear) (j : Job) :
    (e.apply j).session.clears = j.session.clears := by
  cases e with
  | copy cwd source path =>
    obtain ⟨volume, hs⟩ := session_copy cwd source path j
    rw [hs]
  | enter path =>
    obtain ⟨env, hs⟩ := session_enter path j
    rw [hs]
  | clear => exact absurd rfl hclear
  | _ => rfl

/-- An end in a file. -/
def IsFile (e : Pool.End) : Prop := ∃ path cwd, e = .file path cwd

/-- Whether an effect spares the files, where no stream from a number on leads into one. -/
def SparesFiles (first : Nat) : Effect → Prop
  | .write stream _ => first ≤ stream
  | .openFile .. | .edit .. | .copy .. => False
  | _ => True

/-- An effect that spares the files changes nothing of the volume but the journal, and opens no
stream that leads into a file. -/
theorem SparesFiles.apply {first : Nat} (he : e.SparesFiles first) {j : Job}
    (hj : j.pool.AvoidsFrom first IsFile) :
    (e.apply j).pool.AvoidsFrom first IsFile ∧
      ∃ journal, (e.apply j).session.volume = { j.session.volume with journal } := by
  have hgrows := e.pool_apply j
  have hnowhere : ¬ IsFile .nowhere := by
    rintro ⟨path, cwd, h⟩
    cases h
  cases e with
  | write stream text =>
    have hfile : ¬ IsFile (j.pool.endOf stream) := hj.not_bad hnowhere he
    have hwrite : j.write stream text = (.ok (), { j with pool := j.pool.write stream text }) :=
      Job.write_of_not_file fun path cwd h => hfile ⟨path, cwd, h⟩
    rw [Effect.apply, hwrite] at hgrows ⊢
    exact ⟨hgrows.avoidsFrom_of_next (j.pool.next_write stream text) hj, _, rfl⟩
  | read stream => exact ⟨hgrows.avoidsFrom_of_next (j.pool.next_read stream) hj, _, rfl⟩
  | openKeeping text =>
    refine ⟨hj.addKeeping ?_ text, _, rfl⟩
    rintro ⟨path, cwd, h⟩
    cases h
  | openFile path cwd => exact he.elim
  | edit cwd e => exact he.elim
  | copy cwd source path => exact he.elim
  | enter path =>
    obtain ⟨env, hs⟩ := session_enter path j
    have hpool : ((Effect.enter path).apply j).pool = j.pool := by
      rw [Effect.apply, Job.pool_mapSession]
    rw [hs, hpool]
    exact ⟨hj, j.session.volume.journal, rfl⟩
  | _ => exact ⟨hj, _, rfl⟩

end Effect

/-! ## What stages leave alone -/

namespace Visit

variable {v : Visit} {e : Effect} {first : Nat}

/-- The stage runs a program. -/
def Loads (v : Visit) (p : Program) : Prop := ∃ words, v.Executes p words

/-- The programs that change files. -/
def fileOwners : List Program := [.cp, .mv, .rm, .mkdir, .touch]

/-- The stage has no redirection into a file, and runs no program that changes files. -/
structure SparesFiles (v : Visit) : Prop where
  redirections : ¬ Stage.HasOutput v.command
  programs : ∀ p ∈ fileOwners, ¬ v.Loads p

/-- What a stage does is to open files, to report, or what some program does that it runs. -/
theorem loads_of_mayDo (h : v.MayDo e) :
    e.Opens (Stage.HasOutput v.command) ∨ (∃ streams, e.Reports streams) ∨
      ∃ p ctx, v.Loads p ∧ p.MayDo ctx e := by
  cases h with
  | opens h => exact Or.inl h
  | reports h => exact Or.inr (Or.inl ⟨_, h⟩)
  | @command stage w name c hready hname hload hc h =>
    exact Or.inr (Or.inr ⟨c.program, _,
      ⟨stage.arguments, stage, w, name, c, hready, hname, hload, rfl, rfl⟩, h⟩)

/-- Only `cd` changes the working directory, and only `export` sets variables otherwise. -/
theorem env_of_mayDo (hcd : ¬ v.Loads .cd) (hexport : ¬ v.Loads .export) (h : v.MayDo e) (j : Job) :
    (e.apply j).session.env = j.session.env := by
  refine Effect.env_apply (fun path he => ?_) (fun name value he => ?_) j
  · subst he
    rcases loads_of_mayDo h with h | ⟨_, h⟩ | ⟨p, ctx, hp, h⟩
    · exact h.elim
    · exact h.elim
    · exact hcd (h ▸ hp)
  · subst he
    rcases loads_of_mayDo h with h | ⟨_, h⟩ | ⟨p, ctx, hp, h⟩
    · exact h.elim
    · exact h.elim
    · exact hexport (h.1 ▸ hp)

theorem aliases_of_mayDo (halias : ¬ v.Loads .alias) (hunalias : ¬ v.Loads .unalias)
    (h : v.MayDo e) (j : Job) : (e.apply j).session.aliases = j.session.aliases := by
  refine Effect.aliases_apply (fun name expansion he => ?_) (fun name he => ?_) j
  · subst he
    rcases loads_of_mayDo h with h | ⟨_, h⟩ | ⟨p, ctx, hp, h⟩
    · exact h.elim
    · exact h.elim
    · exact halias (h ▸ hp)
  · subst he
    rcases loads_of_mayDo h with h | ⟨_, h⟩ | ⟨p, ctx, hp, h⟩
    · exact h.elim
    · exact h.elim
    · exact hunalias (h ▸ hp)

theorem clears_of_mayDo (hclear : ¬ v.Loads .clear) (h : v.MayDo e) (j : Job) :
    (e.apply j).session.clears = j.session.clears := by
  refine Effect.clears_apply (fun he => ?_) j
  subst he
  rcases loads_of_mayDo h with h | ⟨_, h⟩ | ⟨p, ctx, hp, h⟩
  · exact h.elim
  · exact h.elim
  · exact hclear (h ▸ hp)

/-- A stage that spares the files does nothing that changes one. -/
theorem SparesFiles.of_mayDo (hv : v.SparesFiles) (hsound : v.job.session.Sound)
    (hfirst : v.StartsFrom first) (h : v.MayDo e) : e.SparesFiles first := by
  have hopens : e.Opens (Stage.HasOutput v.command) → e.SparesFiles first := by
    intro h
    cases e with
    | openKeeping text => trivial
    | openFile path cwd => exact absurd h hv.redirections
    | edit cwd e =>
      cases e with
      | write path content append => exact absurd h.1 hv.redirections
      | _ => exact h.elim
    | _ => exact h.elim
  have howns : ∀ {p}, v.Loads p → p ∈ fileOwners → e.SparesFiles first := fun hp hmem =>
    absurd hp (hv.programs _ hmem)
  cases e with
  | write stream text => exact hfirst.le_of_write hsound h
  | openFile path cwd =>
    rcases loads_of_mayDo h with h | ⟨_, h⟩ | ⟨p, ctx, hp, h⟩
    · exact hopens h
    · exact h.elim
    · exact h.elim
  | edit cwd edit =>
    rcases loads_of_mayDo h with h | ⟨_, h⟩ | ⟨p, ctx, hp, h⟩
    · exact hopens h
    · exact h.elim
    · refine howns hp ?_
      cases edit with
      | write path content append => exact h.2.elim
      | _ =>
        rw [show p = _ from h.2]
        decide
  | copy cwd source path =>
    rcases loads_of_mayDo h with h | ⟨_, h⟩ | ⟨p, ctx, hp, h⟩
    · exact h.elim
    · exact h.elim
    · refine howns hp ?_
      rw [h.2]
      decide
  | _ => trivial

end Visit

/-! ## Commands that are not found -/

namespace Redirection

variable {rs : List Redirection} {table table' : Table} {cwd : String} {w w' : Wiring}

/-- To apply redirections is to change no file but those that they lead descriptors into. -/
theorem item?_of_connectAll (hw : w.volume.tree.WellFormed)
    (h : connectAll cwd rs table w = (.ok table', w')) {p : Segments}
    (hp : ∀ r ∈ rs, outputPlace? cwd r ≠ some p) :
    w'.volume.tree.item? p = w.volume.tree.item? p := by
  induction rs generalizing table w with
  | nil =>
    cases h
    rfl
  | cons r rest ih =>
    obtain ⟨hr, hrest⟩ := List.forall_mem_cons.mp hp
    rw [connectAll] at h
    split at h
    · cases h
    · next hconnect =>
      have hone := connected hconnect
      rw [ih (hone.wellFormed hw) h hrest]
      cases hone with
      | copied => rfl
      | read => rfl
      | written hop ht hv =>
        obtain ⟨text, hputs, -⟩ := Volume.puts_of_open hw hv
        refine hputs.elsewhere p fun he => hr ?_
        rw [outputPlace?_of_output hop ht, he]

end Redirection

/-- Where a text goes that is written to a descriptor of a stage that is ready: into the file that
the descriptor is bound to for writing; if there is none, to no file, as long as the streams that
the stage starts with lead to none. -/
theorem Stage.Ready.leads_or_not_file {rs : List Redirection} {defaults ends : Ends} {cwd : String}
    {w w' : Wiring} (h : Stage.Ready rs defaults cwd w ends w')
    (hends : ∀ (k : Fin 3) path cwd, w'.pool.endOf (defaults.get k) ≠ .file path cwd) (k : Fin 3) :
    (∃ p, Redirection.placeOf? cwd rs k = some p ∧ w'.Leads (ends.get k) (some p)) ∨
      Redirection.placeOf? cwd rs k = none ∧
        ∀ path cwd, w'.pool.endOf (ends.get k) ≠ .file path cwd := by
  obtain ⟨b, hb, hstream⟩ := h.bound k
  rw [hstream, Redirection.placeOf?, hb]
  cases b with
  | standard m => exact Or.inr ⟨rfl, hends m⟩
  | opened i =>
    obtain ⟨r, path, hr, htarget, ⟨hop, text, hkept⟩ | ⟨hop, hleads, text, hheld⟩⟩ := h.opened hb
    · dsimp only
      rw [hr, Option.bind_some]
      refine Or.inr ⟨by rw [Redirection.outputPlace?, hop], ?_⟩
      rw [Binding.stream, (Pool.endOf_of_stream hkept).1 rfl]
      exact fun _ _ => Pool.End.noConfusion
    · dsimp only
      rw [hr, Option.bind_some]
      exact Or.inl ⟨_, Redirection.outputPlace?_of_output hop htarget, .file hleads hheld⟩

theorem Job.write_of_wiring {j : Job} {stream : Nat} {text : String} {w' : Wiring}
    (h : j.wiring.write stream text = (.ok (), w')) :
    j.write stream text = (.ok (), j.rewire w') := by
  rw [write, h]

namespace Visit

variable {v : Visit}

/-- What is said of a command that is not found. -/
def notFound (name : String) : String := name ++ ": command not found\n"

/-- The streams that a stage starts with lead into no file when the stage is ready. -/
theorem ready_ne_file {stage : Stage}
    (hready : Stage.resolve v.command v.defaults v.job.session.cwd v.job.wiring =
      (.ok stage, v.wired))
    (hends : ∀ k, v.job.pool.Takes (v.job.pool.endOf (v.defaults.get k))) (k : Fin 3)
    (path cwd : String) : v.wired.pool.endOf (v.defaults.get k) ≠ .file path cwd := by
  have hsteps := Stage.steps_resolve v.job v.command v.defaults v.job.session.cwd
  rw [hready] at hsteps
  exact (hsteps.pool.takes_endOf (hends k)).ne_file path cwd

/-- What a stage with some redirections does to the files when its command is not found. -/
structure OnlyReports (v : Visit) (rs : List Redirection) (name : String) : Prop where
  code : ∃ redirected, v.run.1 = .ok (Action.unknown, redirected)
  /-- The files of its redirections are opened. -/
  opened : ∀ p, (∀ r ∈ rs, Redirection.outputPlace? v.job.session.cwd r ≠ some p) →
    v.wired.volume.tree.item? p = v.job.session.volume.tree.item? p
  /-- The report goes into the file that its errors are bound to, if they are. -/
  reported : ∀ p, Redirection.placeOf? v.job.session.cwd rs 2 = some p →
    ∃ old, v.wired.volume.tree.item?.content? p = some (.string old) ∧
      v.run.2.session.volume.tree.item?.content? p = some (.string (old ++ notFound name))
  /-- All other files stay as they are when those of the redirections have been opened. -/
  elsewhere : ∀ p, Redirection.placeOf? v.job.session.cwd rs 2 ≠ some p →
    v.run.2.session.volume.tree.item? p = v.wired.volume.tree.item? p

/-- A stage whose command is not found exits with the code for that, when it has been reported. -/
theorem run_of_notFound {stage : Stage} {name : String} {e : UnitError} {j' : Job}
    (hready : Stage.resolve v.command v.defaults v.job.session.cwd v.job.wiring =
      (.ok stage, v.wired))
    (hname : stage.name = some name) (hne : ∀ r, e ≠ .content r)
    (hload : v.job.session.registry.load v.wired.volume.tree name v.job.session.bin = .error e)
    (hwrite : (v.ready.note .warning .loader e.message).write stage.ends.errors (notFound name) =
      (.ok (), j')) :
    v.run = (.ok (Action.unknown, stage.outputRedirected), j') := by
  have hcommand : v.ready.runCommand name stage v.job.session.cwd v.defaults.errors =
      (.ok Action.unknown, j') := by
    rw [notFound] at hwrite
    rw [Job.runCommand_of_error (j := v.ready) hne hload, Job.report, hwrite]
    rfl
  rw [run, Job.runStage_of_ready hready hname]
  rw [ready] at hcommand
  rw [hcommand]
  rfl

/-- A line breaks off at a unit file that holds no text. -/
theorem run_of_content {stage : Stage} {name : String} {r : ContentError}
    (hready : Stage.resolve v.command v.defaults v.job.session.cwd v.job.wiring =
      (.ok stage, v.wired))
    (hname : stage.name = some name)
    (hload : v.job.session.registry.load v.wired.volume.tree name v.job.session.bin =
      .error (.content r)) :
    v.run.1 = .error (.content r) := by
  rw [run, Job.runStage_of_ready hready hname,
    Job.runCommand_of_content (j := v.job.rewire v.wired) hload]
  rfl

/-- A stage whose command is not found opens the files of its redirections, and reports. -/
theorem onlyReports (hv : v.job.session.Sound)
    (hends : ∀ k, v.job.pool.Takes (v.job.pool.endOf (v.defaults.get k))) {parts : Parts}
    {stage : Stage} {name : String} (hparts : Parts.ofStage v.command = .ok parts)
    (hready : Stage.resolve v.command v.defaults v.job.session.cwd v.job.wiring =
      (.ok stage, v.wired))
    (hname : stage.name = some name)
    (hload : ∀ c, v.job.session.registry.load v.wired.volume.tree name v.job.session.bin ≠ .ok c)
    (hreturns : ∀ b, v.run.1 ≠ .error b) : v.OnlyReports parts.redirections name := by
  obtain ⟨parts', table, hparts', hconnect, rfl⟩ := Stage.resolve_eq_ok hready
  obtain rfl := Except.ok.inj (hparts.symm.trans hparts')
  have hbound := Stage.ready_of_connectAll hv.wellFormed hconnect
  have hopened : ∀ p, (∀ r ∈ parts.redirections,
      Redirection.outputPlace? v.job.session.cwd r ≠ some p) →
      v.wired.volume.tree.item? p = v.job.session.volume.tree.item? p :=
    fun p hp => Redirection.item?_of_connectAll hv.wellFormed hconnect hp
  obtain ⟨e, he⟩ : ∃ e, v.job.session.registry.load v.wired.volume.tree name
      v.job.session.bin = .error e := by
    cases hl : v.job.session.registry.load v.wired.volume.tree name v.job.session.bin with
    | ok c => exact absurd hl (hload c)
    | error e => exact ⟨e, rfl⟩
  have hne : ∀ r, e ≠ .content r := by
    rintro r rfl
    exact hreturns _ (run_of_content hready hname he)
  rcases hbound.leads_or_not_file (ready_ne_file hready hends) 2 with
    ⟨p, hplace, hleads⟩ | ⟨hplace, hfile⟩
  · -- the report goes behind what the file holds
    replace hplace : Redirection.placeOf? v.job.session.cwd parts.redirections 2 = some p := hplace
    have hnoted : (v.ready.note .warning .loader e.message).wiring.Leads
        ((table.ends v.defaults).get 2) (some p) := by
      cases hleads with
      | file hs ht => exact .file hs ht
    obtain ⟨w', hwrite, hwrote⟩ := hnoted.write hbound.wellFormed (notFound name)
    have hrun := run_of_notFound hready hname hne he (Job.write_of_wiring hwrite)
    refine ⟨⟨_, congrArg Prod.fst hrun⟩, hopened, fun q hq => ?_, fun q hq => ?_⟩
    · rw [hplace] at hq
      cases hq
      cases hleads with
      | file hs ht =>
        have hheld := hwrote.held _ _ ht
        rw [if_pos rfl] at hheld
        rw [hrun]
        exact ⟨_, ht, hheld⟩
    · rw [hplace] at hq
      rw [hrun]
      exact hwrote.elsewhere q hq
  · replace hplace : Redirection.placeOf? v.job.session.cwd parts.redirections 2 = none := hplace
    have hwrite : (v.ready.note .warning .loader e.message).write (table.ends v.defaults).errors
        (notFound name) = (.ok (), { v.ready.note .warning .loader e.message with
          pool := (v.ready.note .warning .loader e.message).pool.write
            (table.ends v.defaults).errors (notFound name) }) := Job.write_of_not_file hfile
    have hrun := run_of_notFound hready hname hne he hwrite
    refine ⟨⟨_, congrArg Prod.fst hrun⟩, hopened, fun q hq => ?_, fun q hq => ?_⟩
    · rw [hplace] at hq
      cases hq
    · rw [hrun]
      rfl

end Visit

/-! ## Lines -/

namespace Session

variable {s : Session} {line : String} {d : Display}

/-- What a line leaves alone if none of its stages runs an owner, and what it does in any case. -/
structure Confined (s : Session) (line : String) (d : Display) : Prop where
  /-- The volume is as it was but for the journal: its tree, its store, and what is stored. -/
  files : (∀ v ∈ s.visits line d, v.SparesFiles) →
    ∃ journal, (s.runOn line d).2.session.volume = { s.volume with journal }
  env : (∀ v ∈ s.visits line d, ¬ v.Loads .cd ∧ ¬ v.Loads .export) →
    (s.runOn line d).2.session.env = s.env
  aliases : (∀ v ∈ s.visits line d, ¬ v.Loads .alias ∧ ¬ v.Loads .unalias) →
    (s.runOn line d).2.session.aliases = s.aliases
  clears : (∀ v ∈ s.visits line d, ¬ v.Loads .clear) →
    (s.runOn line d).2.session.clears = s.clears
  history : (s.runOn line d).2.session.history =
    s.history ++ if Text.trimmed line = "" then [] else [Text.trimmed line]
  /-- A stage whose command is not found opens the files of its redirections, and reports. -/
  unfound : ∀ v ∈ s.visits line d, ∀ parts stage name, Parts.ofStage v.command = .ok parts →
    (Stage.resolve v.command v.defaults v.job.session.cwd v.job.wiring).1 = .ok stage →
      stage.name = some name →
        (∀ c, v.job.session.registry.load v.wired.volume.tree name v.job.session.bin ≠ .ok c) →
          v.OnlyReports parts.redirections name

/-- What no effect of a stage changes, and none between stages, a line leaves as it is. -/
theorem runOn_keeps {α : Type} (part : Session → α) (h : s.Sound)
    (hbetween : ∀ e : Effect, e.Between → ∀ j, part (e.apply j).session = part j.session)
    (hvisits : ∀ v ∈ s.visits line d, ∀ e, v.MayDo e →
      ∀ j, part (e.apply j).session = part j.session) :
    part (s.runOn line d).2.session = part (s.firstJob line d).session := by
  have hsteps : Steps (fun e => e.Plain ∧ ∀ j, part (e.apply j).session = part j.session)
      (s.firstJob line d) (s.runOn line d).2 :=
    (steps_runOn (fun e he => ⟨he.plain, hbetween e he⟩) (fun e he => he.1) h line d
      fun v hv e he => ⟨he.plain, hvisits v hv e he⟩).1
  exact hsteps.keeps (P := fun j => part j.session = part (s.firstJob line d).session) rfl
    fun e j he hj => (he.2 j).trans hj

theorem files_runOn (h : s.Sound) (hout : d.pool.Takes (d.pool.endOf d.output))
    (hvisits : ∀ v ∈ s.visits line d, v.SparesFiles) :
    ∃ journal, (s.runOn line d).2.session.volume = { s.volume with journal } := by
  have hbetween : ∀ e : Effect, e.Between → e.SparesFiles d.pool.next := fun e he => by
    cases e <;> first | exact he.elim | trivial
  have hsteps : Steps (fun e => e.Plain ∧ e.SparesFiles d.pool.next) (s.firstJob line d)
      (s.runOn line d).2 :=
    (steps_runOn (fun e he => ⟨he.plain, hbetween e he⟩) (fun e he => he.1) h line d
      fun v hv e he => ⟨he.plain, (hvisits v hv).of_mayDo (sound_of_mem_visits h hv)
        (startsFrom_of_mem_visits h hv) he⟩).1
  have hfirst : (s.firstJob line d).session.volume = s.volume := s.volume_remember _
  have havoids : (s.firstJob line d).pool.AvoidsFrom d.pool.next Effect.IsFile := by
    exact avoidsFrom_firstJob hout (fun ⟨path, cwd, he⟩ => hout.ne_file path cwd he)
      fun ⟨path, cwd, he⟩ => d.takes.ne_file path cwd he
  refine (hsteps.keeps (P := fun j => j.pool.AvoidsFrom d.pool.next Effect.IsFile ∧
    ∃ journal, j.session.volume = { s.volume with journal })
    ⟨havoids, s.volume.journal, hfirst⟩ fun e j he hj => ?_).2
  obtain ⟨havoids, journal, hjournal⟩ := hj
  obtain ⟨havoids', journal', hvolume⟩ := he.2.apply havoids
  exact ⟨havoids', journal', by rw [hvolume, hjournal]⟩

/-- Whatever line is run by a session with the commands that every session has, on a display that
leads into no file: if it comes to a code, its effects are confined to their owners. -/
theorem confined_of_returns (hw : s.volume.tree.WellFormed) (hr : s.registry = builtIns)
    (hout : d.pool.Takes (d.pool.endOf d.output)) {code : Int}
    (hreturns : (s.runOn line d).1 = .ok code) : s.Confined line d := by
  have h : s.Sound := sound_of_builtIns hw hr
  obtain ⟨history, hremember⟩ := s.exists_remember (Text.trimmed line)
  have hfirst : (s.firstJob line d).session = { s with history } := hremember
  refine ⟨files_runOn h hout, fun hno => ?_, fun hno => ?_, fun hno => ?_, ?_, ?_⟩
  · have hkeeps : (s.runOn line d).2.session.env = (s.firstJob line d).session.env :=
      runOn_keeps Session.env h (fun e he j => by cases e <;> first | exact he.elim | rfl)
        fun v hv e he j => Visit.env_of_mayDo (hno v hv).1 (hno v hv).2 he j
    rw [hkeeps, hfirst]
  · have hkeeps : (s.runOn line d).2.session.aliases = (s.firstJob line d).session.aliases :=
      runOn_keeps Session.aliases h (fun e he j => by cases e <;> first | exact he.elim | rfl)
        fun v hv e he j => Visit.aliases_of_mayDo (hno v hv).1 (hno v hv).2 he j
    rw [hkeeps, hfirst]
  · have hkeeps : (s.runOn line d).2.session.clears = (s.firstJob line d).session.clears :=
      runOn_keeps Session.clears h (fun e he j => by cases e <;> first | exact he.elim | rfl)
        fun v hv e he j => Visit.clears_of_mayDo (hno v hv) he j
    rw [hkeeps, hfirst]
  · have hkeeps : (s.runOn line d).2.session.history = (s.firstJob line d).session.history :=
      runOn_keeps Session.history h (fun e _ j => e.history_apply j) fun _ _ e _ j =>
        e.history_apply j
    rw [hkeeps, firstJob, remember]
    split
    · exact (List.append_nil _).symm
    · rfl
  · intro v hv parts stage name hparts hready hname hload
    have hsound := sound_of_mem_visits h hv
    refine Visit.onlyReports hsound (takes_of_mem_visits h hout hv) hparts (Prod.ext hready rfl)
      hname hload fun b hb => ?_
    have hstumbles : v.Stumbles := (v.run_spec hsound).2.mp ⟨b, hb⟩
    obtain ⟨b', hb'⟩ := (runOn_spec h line d).2.mpr ⟨v, hv, hstumbles⟩
    rw [hreturns] at hb'
    cases hb'

/-- After the usual boot, a line whose command is not found is confined to its redirections. -/
theorem confined_to_redirections :
    ∃ s : Session, s.Reached ∧ (s.runOn "nosuch > out 2> err" .apart).1 = .ok Action.unknown ∧
      s.Confined "nosuch > out 2> err" .apart := by
  let s : Session := Boot.usualSession
  have hcode : (match (s.runOn "nosuch > out 2> err" .apart).1 with
      | .ok code => code == Action.unknown
      | .error _ => false) = true := by
    decide +kernel
  have hreached : s.Reached := .boot Boot.usual_eq
  have hreturns : (s.runOn "nosuch > out 2> err" .apart).1 = .ok Action.unknown := by
    split at hcode
    · next code h => rw [h, eq_of_beq hcode]
    · cases hcode
  exact ⟨s, hreached, hreturns, confined_of_returns hreached.sound.wellFormed
    (Boot.registry_of_run Boot.usual_eq) Nat.zero_lt_two hreturns⟩

end Session

end TreeShell
