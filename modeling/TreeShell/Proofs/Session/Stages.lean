import TreeShell.Proofs.Session.Frames
import TreeShell.Session.Run

/-!
# Stages that come to a code

To make a stage ready and to run it is a run of effects that write nothing but texts. It ends with
one of four codes unless the stage stumbles: digits stand for no number, or a file is in the way
that holds no text and should. Each way to stumble is told by the line and the tree alone.
-/

namespace TreeShell

/-- The codes that a line can end with. -/
def IsLineCode (code : Int) : Prop := IsExitCode code ∨ code = Action.unknown

namespace Job

variable {j : Job}

/-- A text cannot be written to a stream, for it leads to a file that holds no text. -/
def Refuses (j : Job) (stream : Nat) : Prop :=
  ∃ path cwd, j.pool.endOf stream = .file path cwd ∧
    j.session.volume.tree.HoldsNoText path cwd

/-! ## Writing and reporting -/

/-- A write in a sound session is refused just if the stream leads to a file that refuses texts. -/
theorem write_refused_iff (hj : j.session.Sound) {stream : Nat} {text : String} :
    (∃ e, (j.write stream text).1 = .error (.content e)) ↔ j.Refuses stream := by
  cases he : j.pool.endOf stream with
  | file path cwd =>
    rw [write_of_file he, Volume.write_text_refused_iff hj.wellFormed]
    simp [Refuses, he]
  | _ =>
    rw [write_of_not_file fun path cwd => by rw [he]; exact fun h => by cases h]
    simp [Refuses, he]

/-- A write is a report to the stream. -/
theorem steps_write (j : Job) (stream : Nat) (text : String) :
    Steps (Effect.Reports (· = stream)) j (j.write stream text).2 :=
  .single (e := .write stream text) (show Effect.Reports (· = stream) _ from rfl) j

/-- A report goes to the stream or to the fallback. -/
theorem steps_report (j : Job) (stream fallback : Nat) (text : String) :
    Steps (Effect.Reports fun n => n = stream ∨ n = fallback) j
      (j.report stream fallback text).2 := by
  have hwrite : Steps (Effect.Reports fun n => n = stream ∨ n = fallback) j
      (j.write stream text).2 :=
    (j.steps_write stream text).mono fun e he => he.mono fun n => Or.inl
  unfold report
  split
  · next h =>
    rw [h] at hwrite
    exact hwrite
  · next h =>
    rw [h] at hwrite
    exact hwrite
  · next h =>
    rw [h] at hwrite
    exact hwrite.trans ((steps_write _ fallback text).mono fun e he => he.mono fun n => Or.inr)

/-- A note goes to no stream. -/
theorem steps_note (j : Job) (level : Level) (source : Source) (message : String)
    (streams : Nat → Prop) : Steps (Effect.Reports streams) j (j.note level source message) :=
  .single (e := .note level source message) trivial j

/-- A report is refused just if its own stream leads to a file that refuses texts. -/
theorem report_refused_iff (hj : j.session.Sound) {stream fallback : Nat} {text : String} :
    (∃ e, (j.report stream fallback text).1 = .error e) ↔ j.Refuses stream := by
  have hwrite : (∃ e, (j.write stream text).1 = .error (.content e)) ↔ j.Refuses stream :=
    write_refused_iff hj
  rw [← hwrite]
  unfold report
  split
  · next h => simp [h]
  · next h => simp [h]
  · next e _ hne h =>
    rw [h]
    constructor
    · rintro ⟨e', he⟩
      cases he
    · rintro ⟨e', he⟩
      exact absurd (Except.error.inj he) (hne e')

end Job

/-! ## Making ready -/

/-- A stage fails for a content just if the path does. -/
theorem StageError.ofPathError_eq_content_iff {e : PathError} {r : ContentError} :
    StageError.ofPathError e = .content r ↔ e = .content r := by
  cases e <;> simp [ofPathError]

namespace Redirection

variable {r : Redirection} {path cwd : String} {w : Wiring}

/-- A file that is written to is made, emptied or left as it is, and then led to. -/
theorem openFile_of_output (h : r.operator = .write ∨ r.operator = .append) :
    r.openFile path cwd w =
      match w.volume.perform cwd (.write path (.string "") (r.operator = .append)) with
      | (.error e, volume) => (.error (.ofPathError e), { w with volume })
      | (.ok _, volume) =>
        (.ok ({ w with volume }.add (.file path cwd)).2,
          ({ w with volume }.add (.file path cwd)).1) := by
  obtain ⟨descriptor, operator, target⟩ := r
  rcases h with rfl | rfl
  · rfl
  · rfl

/-- A redirection leads a descriptor into a file. -/
def IsOutput (r : Redirection) : Prop :=
  (r.operator = .write ∨ r.operator = .append) ∧ ∃ path, r.target = .file path

/-- These are the operators of redirections. -/
theorem operator_cases (r : Redirection) :
    r.operator = .readWrite ∨ r.operator = .read ∨ r.operator = .write ∨ r.operator = .append := by
  cases r.operator <;> simp

/-- To open a file does nothing but to write it, and that only for writing. -/
theorem steps_openFile (j : Job) (r : Redirection) (path cwd : String) (w : Wiring) :
    Steps (Effect.Opens (r.operator = .write ∨ r.operator = .append)) (j.rewire w)
      (j.rewire (r.openFile path cwd w).2) := by
  rcases r.operator_cases with h | h | h
  · rw [openFile, h]
    exact .refl _
  · rw [openFile, h]
    dsimp only
    cases w.volume.tree.content path cwd with
    | error e => exact .refl _
    | ok content => exact .single (e := .openKeeping content.plain) trivial (j.rewire w)
  · have hedit := Steps.single (e := .edit cwd (.write path (.string "") (r.operator = .append)))
      (show Effect.Opens (r.operator = .write ∨ r.operator = .append) _ from ⟨h, rfl⟩)
      (j.rewire w)
    rw [openFile_of_output h]
    cases hp : w.volume.perform cwd (.write path (.string "") (r.operator = .append)) with
    | mk outcome volume =>
      have hj : (j.rewire w).edit cwd (.write path (.string "") (r.operator = .append)) =
          j.rewire { w with volume } := by
        rw [Job.edit, Job.mapSession, Job.rewire]
        simp only [hp]
        rfl
      rw [Effect.apply, hj] at hedit
      cases outcome with
      | error e => exact hedit
      | ok _ =>
        exact hedit.trans (.single (e := .openFile path cwd) h (j.rewire { w with volume }))

/-- A redirection opens a file for writing only if it is an output. -/
theorem steps_connect (j : Job) (r : Redirection) (table : Table) (cwd : String) (w : Wiring) :
    Steps (Effect.Opens r.IsOutput) (j.rewire w) (j.rewire (r.connect table cwd w).2) := by
  unfold connect
  split
  · exact .refl _
  · split
    · exact .refl _
    · exact .refl _
  · next path ht _ =>
    exact (steps_openFile j r path cwd w).mono fun e he => he.mono fun hop => ⟨hop, path, ht⟩

/-- Some redirections open a file for writing only if one of them is an output. -/
theorem steps_connectAll (j : Job) (cwd : String) (rs : List Redirection) (table : Table)
    (w : Wiring) :
    Steps (Effect.Opens (∃ r ∈ rs, r.IsOutput)) (j.rewire w)
      (j.rewire (connectAll cwd rs table w).2) := by
  induction rs generalizing table w with
  | nil => exact .refl _
  | cons r rest ih =>
    have hstep : Steps (Effect.Opens (∃ r' ∈ r :: rest, r'.IsOutput)) (j.rewire w)
        (j.rewire (r.connect table cwd w).2) :=
      (steps_connect j r table cwd w).mono fun e he =>
        he.mono fun hr => ⟨r, List.mem_cons_self, hr⟩
    rw [connectAll]
    split
    · next h =>
      rw [h] at hstep
      exact hstep
    · next h =>
      rw [h] at hstep
      refine hstep.trans ((ih _ _).mono fun e he => he.mono ?_)
      exact fun ⟨r', hr', hout⟩ => ⟨r', List.mem_cons_of_mem r hr', hout⟩

/-- A file cannot be opened for what it holds just if that is no text and is to be written
behind. -/
theorem openFile_refused_iff (hw : w.volume.tree.WellFormed) :
    (∃ e, (r.openFile path cwd w).1 = .error (.content e)) ↔
      r.operator = .append ∧ w.volume.tree.HoldsNoText path cwd := by
  rcases r.operator_cases with h | h | h
  · simp [openFile, h]
  · rw [openFile, h]
    dsimp only
    cases hc : w.volume.tree.content path cwd with
    | ok content => simp
    | error e =>
      have hne : ∀ r, e ≠ .content r := fun r hr => Tree.content_ne_content_error (hr ▸ hc)
      simp [StageError.ofPathError_eq_content_iff, hne]
  · have hp : (∃ e, (w.volume.perform cwd (.write path (.string "") (r.operator = .append))).1 =
        .error (.content e)) ↔ _ := Volume.write_text_refused_iff hw
    rw [decide_eq_true_iff] at hp
    rw [openFile_of_output h, ← hp]
    cases w.volume.perform cwd (.write path (.string "") (r.operator = .append)) with
    | mk outcome volume =>
      cases outcome with
      | ok _ => simp
      | error e => simp [StageError.ofPathError_eq_content_iff]

/-- A redirection cannot be applied for what a file holds just if it appends to one that holds no
text. -/
theorem connect_refused_iff (hw : w.volume.tree.WellFormed) {table : Table} :
    (∃ e, (r.connect table cwd w).1 = .error (.content e)) ↔
      r.operator = .append ∧ ∃ path, r.target = .file path ∧
        w.volume.tree.HoldsNoText path cwd := by
  unfold connect
  split
  · next h => simp [h]
  · next hn _ =>
    cases table.get? _ with
    | none => simp [hn]
    | some number => simp [hn]
  · next hp _ =>
    rw [openFile_refused_iff hw]
    simp [hp]

/-- Redirections cannot be applied for what a file holds just if one of them appends to one that
holds no text when those before it have been applied. -/
theorem connectAll_refused_iff {j : Job} {rs : List Redirection} {table : Table}
    (hj : (j.rewire w).session.Sound) :
    (∃ e, (connectAll cwd rs table w).1 = .error (.content e)) ↔
      ∃ before r after path table' w', rs = before ++ r :: after ∧
        connectAll cwd before table w = (.ok table', w') ∧ r.operator = .append ∧
          r.target = .file path ∧ w'.volume.tree.HoldsNoText path cwd := by
  induction rs generalizing table w with
  | nil => simp [connectAll]
  | cons r rest ih =>
    have hsound := (steps_connect j r table cwd w).plain.sound hj
    have hrefused : (∃ e, (r.connect table cwd w).1 = .error (.content e)) ↔ _ :=
      connect_refused_iff hj.wellFormed
    cases hc : r.connect table cwd w with
    | mk outcome w' =>
      rw [hc] at hrefused hsound
      rw [connectAll, hc]
      cases outcome with
      | error e =>
        simp only [Except.error.injEq] at hrefused ⊢
        constructor
        · intro he
          obtain ⟨hop, path, ht, hno⟩ := hrefused.mp he
          exact ⟨[], r, rest, path, table, w, rfl, rfl, hop, ht, hno⟩
        · rintro ⟨before, r', after, path, table', w'', hrs, hb, hop, ht, hno⟩
          cases before with
          | nil =>
            cases hrs
            cases hb
            exact hrefused.mpr ⟨hop, path, ht, hno⟩
          | cons r'' before =>
            cases hrs
            rw [connectAll, hc] at hb
            cases hb
      | ok number =>
        rw [ih hsound]
        constructor
        · rintro ⟨before, r', after, path, table', w'', rfl, hb, hop, ht, hno⟩
          refine ⟨r :: before, r', after, path, table', w'', rfl, ?_, hop, ht, hno⟩
          rw [connectAll, hc]
          exact hb
        · rintro ⟨before, r', after, path, table', w'', hrs, hb, hop, ht, hno⟩
          cases before with
          | nil =>
            cases hrs
            cases hb
            obtain ⟨e, he⟩ := hrefused.mpr ⟨hop, path, ht, hno⟩
            cases he
          | cons r'' before =>
            cases hrs
            rw [connectAll, hc] at hb
            exact ⟨before, r', after, path, table', w'', rfl, hb, hop, ht, hno⟩

/-- No redirection is refused as a line would be. -/
theorem openFile_ne_line {e : LineError} : (r.openFile path cwd w).1 ≠ .error (.line e) := by
  have hne : ∀ p, StageError.ofPathError p ≠ .line e := fun p => by
    cases p <;> simp [StageError.ofPathError]
  rcases r.operator_cases with h | h | h
  · simp [openFile, h]
  · rw [openFile, h]
    dsimp only
    cases w.volume.tree.content path cwd <;> simp [hne]
  · rw [openFile_of_output h]
    cases w.volume.perform cwd (.write path (.string "") (r.operator = .append)) with
    | mk outcome volume => cases outcome <;> simp [hne]

/-- No redirection fails for the spelling of the line. -/
theorem connect_ne_line {table : Table} {e : LineError} :
    (r.connect table cwd w).1 ≠ .error (.line e) := by
  unfold connect
  split
  · simp
  · cases table.get? _ <;> simp
  · exact openFile_ne_line

/-- Several redirections do not fail for the spelling of the line. -/
theorem connectAll_ne_line {rs : List Redirection} {table : Table} {e : LineError} :
    (connectAll cwd rs table w).1 ≠ .error (.line e) := by
  induction rs generalizing table w with
  | nil => simp [connectAll]
  | cons r rest ih =>
    have hconnect : (r.connect table cwd w).1 ≠ .error (.line e) := connect_ne_line
    rw [connectAll]
    split
    · next h =>
      rw [h] at hconnect
      simpa using hconnect
    · exact ih

end Redirection

/-- A stage has a redirection that leads a descriptor into a file. -/
def Stage.HasOutput (command : String) : Prop :=
  ∃ parts, Parts.ofStage command = .ok parts ∧ ∃ r ∈ parts.redirections, r.IsOutput

/-- A stage opens a file for writing only if it has an output among its redirections. -/
theorem Stage.steps_resolve (j : Job) (command : String) (defaults : Ends) (cwd : String) :
    Steps (Effect.Opens (Stage.HasOutput command)) j
      (j.rewire (Stage.resolve command defaults cwd j.wiring).2) := by
  unfold Stage.resolve
  split
  · exact .refl j
  · next parts hparts =>
    have hsteps := (Redirection.steps_connectAll j cwd parts.redirections (Table.ofEnds defaults)
      j.wiring).mono fun e he => he.mono fun hout => (⟨parts, hparts, hout⟩ : HasOutput command)
    split
    · next h =>
      rw [h] at hsteps
      exact hsteps
    · next h =>
      rw [h] at hsteps
      exact hsteps

/-- A stage fails for its spelling just if it cannot be read. -/
theorem Stage.resolve_line_iff (command : String) (defaults : Ends) (cwd : String) (w : Wiring)
    {e : LineError} :
    (Stage.resolve command defaults cwd w).1 = .error (.line e) ↔
      Parts.ofStage command = .error e := by
  unfold Stage.resolve
  cases Parts.ofStage command with
  | error e' => simp
  | ok parts =>
    have hne : (Redirection.connectAll cwd parts.redirections (Table.ofEnds defaults) w).1 ≠
        .error (.line e) := Redirection.connectAll_ne_line
    cases hc : Redirection.connectAll cwd parts.redirections (Table.ofEnds defaults) w with
    | mk outcome w' =>
      rw [hc] at hne
      cases outcome with
      | ok table => simp [hc]
      | error e' => simpa [hc] using hne

/-- A stage cannot be made ready for what a file holds just if it appends to one that holds no text
when the redirections before have been applied. -/
theorem Stage.resolve_content_iff {j : Job} (command : String) (defaults : Ends) (cwd : String)
    (hj : j.session.Sound) :
    (∃ e, (Stage.resolve command defaults cwd j.wiring).1 = .error (.content e)) ↔
      ∃ parts, Parts.ofStage command = .ok parts ∧ ∃ before r after path table w,
        parts.redirections = before ++ r :: after ∧
          Redirection.connectAll cwd before (Table.ofEnds defaults) j.wiring = (.ok table, w) ∧
            r.operator = .append ∧ r.target = .file path ∧ w.volume.tree.HoldsNoText path cwd := by
  unfold Stage.resolve
  cases Parts.ofStage command with
  | error e => simp
  | ok parts =>
    have hall : (∃ e, (Redirection.connectAll cwd parts.redirections (Table.ofEnds defaults)
        j.wiring).1 = .error (.content e)) ↔ _ := Redirection.connectAll_refused_iff hj
    simp only [Except.ok.injEq, exists_eq_left', ← hall]
    cases Redirection.connectAll cwd parts.redirections (Table.ofEnds defaults) j.wiring with
    | mk outcome w => cases outcome <;> simp

/-! ## Running commands -/

/-- A unit file is in the way just if the name can have one and it holds no text. -/
theorem Registry.load_refused_iff (r : Registry) (t : Tree) (name bin : String) :
    (∃ e, r.load t name bin = .error (.content e)) ↔
      (name ≠ "" ∧ '/' ∉ name.toList) ∧ t.HoldsNoText (Command.unitPath name bin) "/" := by
  unfold load
  split
  · next h =>
    constructor
    · rintro ⟨e, he⟩
      cases he
    · rintro ⟨⟨hne, hslash⟩, -⟩
      exact (h.elim hne hslash).elim
  · next h =>
    rw [not_or] at h
    rw [and_iff_right h, Tree.HoldsNoText]
    dsimp only
    cases t.content (Command.unitPath name bin) "/" with
    | error e => simp
    | ok content =>
      cases content with
      | string text =>
        simp only [Json.textFor]
        constructor
        · rintro ⟨e, he⟩
          split at he
          · cases he
          · split at he
            · cases he
            · cases he
        · rintro ⟨content, hc, hno⟩
          exact absurd (Except.ok.inj hc).symm (hno text)
      | _ => simp [Json.textFor]

/-- A command that is found is one of the registry. -/
theorem Registry.exists_get?_of_load {r : Registry} {t : Tree} {name bin : String} {c : Command}
    (h : r.load t name bin = .ok c) : ∃ entry, r.get? entry = some c := by
  unfold load at h
  split at h
  · cases h
  · dsimp only at h
    split at h
    · cases h
    · split at h
      · cases h
      · split at h
        · cases h
        · split at h
          · next hc =>
            cases h
            exact ⟨_, hc⟩
          · cases h

namespace Job

variable {j : Job} {name : String} {stage : Stage} {cwd : String} {fallback : Nat}

/-- A code is lost just if the report before it is refused. -/
theorem codeAfter_refused_iff {code : Int} {o : Except ContentError Unit × Job} :
    (∃ b, (codeAfter code o).1 = .error b) ↔ ∃ e, o.1 = .error e := by
  obtain ⟨outcome, j⟩ := o
  cases outcome <;> simp [codeAfter]

/-- A code that is not lost is the one that was given. -/
theorem codeAfter_code {code code' : Int} {o : Except ContentError Unit × Job}
    (h : (codeAfter code o).1 = .ok code') : code' = code := by
  obtain ⟨outcome, j⟩ := o
  cases outcome with
  | ok _ => exact (Except.ok.inj h).symm
  | error e => cases h

/-- A code leaves what the report left. -/
theorem codeAfter_job (code : Int) (o : Except ContentError Unit × Job) :
    (codeAfter code o).2 = o.2 := by
  obtain ⟨outcome, j⟩ := o
  cases outcome <;> rfl

/-! ### A command that is found -/

section Found

variable {c : Command} {ctx : Context}

/-- A program that exits gives its code. -/
theorem runProgram_of_ok {code : Int} {j' : Job}
    (h : Action.result (c.program.run ctx) j = (.ok code, j')) :
    runProgram c name ctx fallback j = (.ok code, j') := by
  rw [Action.result] at h
  rw [runProgram, h]

/-- A program that fails is noted and reported, and gives the code of a failure. -/
theorem runProgram_of_error {fault : Fault} {j' : Job}
    (h : Action.result (c.program.run ctx) j = (.error fault, j')) :
    runProgram c name ctx fallback j =
      codeAfter Action.failure
        ((j'.note .error .shell (name ++ ": " ++ fault.message)).report ctx.ends.errors fallback
          (name ++ ": " ++ fault.message ++ "\n")) := by
  rw [Action.result] at h
  rw [runProgram, h]

/-- To run a program is to do what it may do, and to report if it fails. -/
theorem steps_runProgram (j : Job) (name : String) (ctx : Context) (fallback : Nat)
    (hc : c.program.isDiagnostic = false) :
    Steps (fun e => c.program.MayDo ctx e ∨ e.Reports fun n => n = ctx.ends.errors ∨ n = fallback) j
      (runProgram c name ctx fallback j).2 := by
  have hsteps : Steps (fun e => c.program.MayDo ctx e ∨
      e.Reports fun n => n = ctx.ends.errors ∨ n = fallback) j
      (Action.result (c.program.run ctx) j).2 :=
    (Program.within_run hc ctx j).1.mono fun e he => Or.inl he
  cases hr : Action.result (c.program.run ctx) j with
  | mk outcome j' =>
    rw [hr] at hsteps
    cases outcome with
    | ok code =>
      rw [runProgram_of_ok hr]
      exact hsteps
    | error fault =>
      rw [runProgram_of_error hr, codeAfter_job]
      have hreport := (steps_note j' .error .shell (name ++ ": " ++ fault.message) _).trans
        (steps_report _ ctx.ends.errors fallback (name ++ ": " ++ fault.message ++ "\n"))
      exact hsteps.trans (hreport.mono fun e he => Or.inr he)

/-- What it is to run a program, in codes and in what it breaks off at. -/
theorem runProgram_spec (name : String) (ctx : Context) (fallback : Nat)
    (hc : c.program.isDiagnostic = false) (hj : j.session.Sound) :
    (∀ code, (runProgram c name ctx fallback j).1 = .ok code → IsLineCode code) ∧
      ((∃ b, (runProgram c name ctx fallback j).1 = .error b) ↔
        ∃ fault j', Action.result (c.program.run ctx) j = (.error fault, j') ∧
          j'.Refuses ctx.ends.errors) := by
  obtain ⟨hsteps, hcode⟩ := Program.within_run hc ctx j
  have hplain := hsteps.mono fun e he => he.plain
  cases hr : Action.result (c.program.run ctx) j with
  | mk outcome j' =>
    rw [hr] at hplain hcode
    cases outcome with
    | ok code =>
      rw [runProgram_of_ok hr]
      refine ⟨fun code' h => ?_, by simp⟩
      cases h
      exact Or.inl (hcode code rfl)
    | error fault =>
      have hnote := hplain.trans
        (steps_note j' .error .shell (name ++ ": " ++ fault.message) fun _ => False).reported
      rw [runProgram_of_error hr, codeAfter_refused_iff, report_refused_iff (hnote.sound hj)]
      refine ⟨fun code h => ?_, ?_⟩
      · rw [codeAfter_code h]
        exact Or.inl isExitCode_failure
      · constructor
        · exact fun h => ⟨fault, j', rfl, h⟩
        · rintro ⟨fault', j'', he, h⟩
          cases he
          exact h

end Found

/-! ### A command that is looked for -/

/-- A command whose unit loads is run with the context of its stage. -/
theorem runCommand_of_ok {c : Command}
    (h : j.session.registry.load j.session.volume.tree name j.session.bin = .ok c) :
    j.runCommand name stage cwd fallback =
      runProgram c name (j.contextOf stage cwd) fallback j := by
  rw [runCommand, Volume.loadCommand, h]

/-- A unit that holds no text breaks the line off. -/
theorem runCommand_of_content {e : ContentError}
    (h : j.session.registry.load j.session.volume.tree name j.session.bin = .error (.content e)) :
    j.runCommand name stage cwd fallback = (.error (.content e), j) := by
  rw [runCommand, Volume.loadCommand, h]

/-- A command whose unit does not load is noted and reported as not found. -/
theorem runCommand_of_error {e : UnitError} (hne : ∀ r, e ≠ .content r)
    (h : j.session.registry.load j.session.volume.tree name j.session.bin = .error e) :
    j.runCommand name stage cwd fallback =
      codeAfter Action.unknown
        ((j.note .warning .loader e.message).report stage.ends.errors fallback
          (name ++ ": command not found\n")) := by
  rw [runCommand, Volume.loadCommand, h]
  cases e with
  | content r => exact absurd rfl (hne r)
  | _ => rfl

/-- What makes a line break off at a command that is looked for. -/
inductive Breaks (name : String) (stage : Stage) (cwd : String) (j : Job) : Prop where
  /-- The unit file of the command holds no text. -/
  | unit (hvalid : name ≠ "" ∧ '/' ∉ name.toList)
    (hno : j.session.volume.tree.HoldsNoText (Command.unitPath name j.session.bin) "/")
  /-- There is no such command, and that cannot be reported. -/
  | unknown
    (hload : ∀ c, j.session.registry.load j.session.volume.tree name j.session.bin ≠ .ok c)
    (hno : j.Refuses stage.ends.errors)
  /-- The command fails, and that cannot be reported. -/
  | failure {c : Command} {fault : Fault} {j' : Job}
    (hload : j.session.registry.load j.session.volume.tree name j.session.bin = .ok c)
    (hrun : Action.result (c.program.run (j.contextOf stage cwd)) j = (.error fault, j'))
    (hno : j'.Refuses stage.ends.errors)

/-- A unit that holds no text is one of the reasons to break off. -/
theorem breaks_of_content {r : ContentError}
    (h : j.session.registry.load j.session.volume.tree name j.session.bin = .error (.content r)) :
    j.Breaks name stage cwd := by
  obtain ⟨hvalid, hno⟩ := (Registry.load_refused_iff _ _ _ _).mp ⟨r, h⟩
  exact .unit hvalid hno

/-- A line breaks off at a command that is not found, for no reason of its unit file, just if that
cannot be reported. -/
theorem breaks_iff_of_error {e : UnitError} (hne : ∀ r, e ≠ .content r)
    (h : j.session.registry.load j.session.volume.tree name j.session.bin = .error e) :
    j.Breaks name stage cwd ↔ j.Refuses stage.ends.errors := by
  constructor
  · rintro (⟨hvalid, hno⟩ | ⟨-, hno⟩ | ⟨hload, -, -⟩)
    · obtain ⟨r, hr⟩ := (Registry.load_refused_iff _ _ _ _).mpr ⟨hvalid, hno⟩
      rw [h] at hr
      exact absurd (Except.error.inj hr) (hne r)
    · exact hno
    · rw [h] at hload
      cases hload
  · intro hno
    refine .unknown (fun c hc => ?_) hno
    rw [h] at hc
    cases hc

/-- A line breaks off at a command that is found just if it fails and that cannot be reported. -/
theorem breaks_iff_of_ok {c : Command}
    (h : j.session.registry.load j.session.volume.tree name j.session.bin = .ok c) :
    j.Breaks name stage cwd ↔
      ∃ fault j', Action.result (c.program.run (j.contextOf stage cwd)) j = (.error fault, j') ∧
        j'.Refuses stage.ends.errors := by
  constructor
  · rintro (⟨hvalid, hno⟩ | ⟨hnone, -⟩ | ⟨hload, hrun, hno⟩)
    · obtain ⟨r, hr⟩ := (Registry.load_refused_iff _ _ _ _).mpr ⟨hvalid, hno⟩
      rw [h] at hr
      cases hr
    · exact absurd h (hnone c)
    · rw [h] at hload
      cases hload
      exact ⟨_, _, hrun, hno⟩
  · rintro ⟨fault, j', hrun, hno⟩
    exact .failure h hrun hno

/-- What is done when a command is looked for and run: reports, and what the command may do. -/
def CommandMayDo (name : String) (stage : Stage) (cwd : String) (fallback : Nat) (j : Job)
    (e : Effect) : Prop :=
  (e.Reports fun n => n = stage.ends.errors ∨ n = fallback) ∨
    ∃ c, j.session.registry.load j.session.volume.tree name j.session.bin = .ok c ∧
      c.program.isDiagnostic = false ∧ c.program.MayDo (j.contextOf stage cwd) e

/-- To run a command does only what the command may do. -/
theorem steps_runCommand (name : String) (stage : Stage) (cwd : String) (fallback : Nat)
    (hj : j.session.Sound) :
    Steps (j.CommandMayDo name stage cwd fallback) j (j.runCommand name stage cwd fallback).2 := by
  cases hload : j.session.registry.load j.session.volume.tree name j.session.bin with
  | ok c =>
    obtain ⟨entry, hentry⟩ := Registry.exists_get?_of_load hload
    have hc := hj.plain entry c hentry
    rw [runCommand_of_ok hload]
    refine (steps_runProgram j name (j.contextOf stage cwd) fallback hc).mono fun e he => ?_
    exact he.symm.imp_right fun h => ⟨c, hload, hc, h⟩
  | error e =>
    by_cases hcontent : ∃ r, e = .content r
    · obtain ⟨r, rfl⟩ := hcontent
      rw [runCommand_of_content hload]
      exact .refl j
    · rw [runCommand_of_error (not_exists.mp hcontent) hload, codeAfter_job]
      have hreport := (j.steps_note .warning .loader e.message _).trans
        (steps_report _ stage.ends.errors fallback (name ++ ": command not found\n"))
      exact hreport.mono fun e he => Or.inl he

/-- What it is to look for a command and run it, in codes and in what it breaks off at. -/
theorem runCommand_spec (name : String) (stage : Stage) (cwd : String) (fallback : Nat)
    (hj : j.session.Sound) :
    (∀ code, (j.runCommand name stage cwd fallback).1 = .ok code → IsLineCode code) ∧
      ((∃ b, (j.runCommand name stage cwd fallback).1 = .error b) ↔ j.Breaks name stage cwd) := by
  cases hload : j.session.registry.load j.session.volume.tree name j.session.bin with
  | ok c =>
    obtain ⟨entry, hentry⟩ := Registry.exists_get?_of_load hload
    rw [runCommand_of_ok hload, breaks_iff_of_ok hload]
    exact runProgram_spec name (j.contextOf stage cwd) fallback (hj.plain entry c hentry) hj
  | error e =>
    by_cases hcontent : ∃ r, e = .content r
    · obtain ⟨r, rfl⟩ := hcontent
      rw [runCommand_of_content hload]
      refine ⟨fun code h => (by cases h), ?_⟩
      exact iff_of_true ⟨.content r, rfl⟩ (breaks_of_content hload)
    · have hne : ∀ r, e ≠ .content r := not_exists.mp hcontent
      have hnote := (j.steps_note .warning .loader e.message fun _ => False).reported
      rw [runCommand_of_error hne hload, breaks_iff_of_error hne hload, codeAfter_refused_iff,
        report_refused_iff (hnote.sound hj)]
      refine ⟨fun code h => ?_, Iff.rfl⟩
      rw [codeAfter_code h]
      exact Or.inr rfl

/-! ## Running stages -/

/-- What makes a line break off at a stage. -/
inductive Stumbles (command : String) (defaults : Ends) (j : Job) : Prop where
  /-- Digits stand for no number. -/
  | digits {e : Text.NumeralError} (hparts : Parts.ofStage command = .error (.numeral e))
  /-- Something is to be appended to a file that holds no text. -/
  | append {parts : Parts} {before after : List Redirection} {r : Redirection} {path : String}
    {table : Table} {w : Wiring} (hparts : Parts.ofStage command = .ok parts)
    (hr : parts.redirections = before ++ r :: after)
    (hbefore : Redirection.connectAll j.session.cwd before (Table.ofEnds defaults) j.wiring =
      (.ok table, w))
    (hop : r.operator = .append) (ht : r.target = .file path)
    (hno : w.volume.tree.HoldsNoText path j.session.cwd)
  /-- The stage is ready, and the line breaks off at its command. -/
  | command {stage : Stage} {w : Wiring} {name : String}
    (hready : Stage.resolve command defaults j.session.cwd j.wiring = (.ok stage, w))
    (hname : stage.name = some name) (hbreaks : (j.rewire w).Breaks name stage j.session.cwd)

/-- A stage whose digits stand for no number breaks off with just that. -/
theorem runStage_of_numeral {command : String} {defaults : Ends} {e : Text.NumeralError}
    (h : Parts.ofStage command = .error (.numeral e)) :
    j.runStage command defaults = (.error (.numeral e), j) := by
  rw [runStage, Stage.resolve, h]
  rfl

/-- What is said of a stage that cannot be read. -/
def syntaxReport (e : LineError) : String := "py-sh: " ++ e.message ++ "\n"

/-- A stage that cannot be read, for no reason of numbers, is reported and counts as wrong use. -/
theorem runStage_of_malformed {command : String} {defaults : Ends} {e : LineError}
    (h : Parts.ofStage command = .error e) (hne : ∀ r, e ≠ .numeral r) :
    j.runStage command defaults =
      (.ok (Action.usage, false), (j.write defaults.errors (syntaxReport e)).2) := by
  rw [runStage, Stage.resolve, h]
  cases e with
  | numeral r => exact absurd rfl (hne r)
  | _ => rfl

/-- A stage that is ready does what its command does. -/
theorem runStage_of_ready {command : String} {defaults : Ends} {w : Wiring}
    (hready : Stage.resolve command defaults j.session.cwd j.wiring = (.ok stage, w))
    (hname : stage.name = some name) :
    j.runStage command defaults =
      (((j.rewire w).runCommand name stage j.session.cwd defaults.errors).1.map
        (·, stage.outputRedirected),
        ((j.rewire w).runCommand name stage j.session.cwd defaults.errors).2) := by
  rw [runStage, hready]
  dsimp only
  rw [hname]

/-- A stage stumbles if a redirection finds a file that refuses texts. -/
theorem stumbles_of_content {command : String} {defaults : Ends} {e : ContentError}
    (hj : j.session.Sound)
    (h : (Stage.resolve command defaults j.session.cwd j.wiring).1 = .error (.content e)) :
    j.Stumbles command defaults := by
  obtain ⟨parts, hparts, before, r, after, path, table, w, hr, hbefore, hop, ht, hno⟩ :=
    (Stage.resolve_content_iff command defaults j.session.cwd hj).mp ⟨e, h⟩
  exact .append hparts hr hbefore hop ht hno

/-- A line breaks off at a stage that is not ready just for the digits of the stage, or for a file
that something is appended to. -/
theorem stumbles_iff_of_error {command : String} {defaults : Ends} {e : StageError} {w : Wiring}
    (hj : j.session.Sound)
    (h : Stage.resolve command defaults j.session.cwd j.wiring = (.error e, w)) :
    j.Stumbles command defaults ↔
      (∃ r, e = .line (.numeral r)) ∨ ∃ r, e = .content r := by
  have hline : ∀ r, e = .line r ↔ Parts.ofStage command = .error r := fun r => by
    rw [← Stage.resolve_line_iff command defaults j.session.cwd j.wiring, h, Except.error.injEq]
  have hcontent := Stage.resolve_content_iff command defaults j.session.cwd hj
  rw [h] at hcontent
  simp only [Except.error.injEq] at hcontent
  constructor
  · rintro (hparts | ⟨hparts, hr, hbefore, hop, ht, hno⟩ | ⟨hready, -, -⟩)
    · exact Or.inl ⟨_, (hline _).mpr hparts⟩
    · exact Or.inr (hcontent.mpr ⟨_, hparts, _, _, _, _, _, _, hr, hbefore, hop, ht, hno⟩)
    · rw [h] at hready
      cases hready
  · rintro (⟨r, hr⟩ | ⟨r, rfl⟩)
    · exact .digits ((hline _).mp hr)
    · exact stumbles_of_content hj (congrArg Prod.fst h)

/-- A line breaks off at a stage that is ready just at its command. -/
theorem stumbles_iff_of_ok {command : String} {defaults : Ends} {stage : Stage} {w : Wiring}
    (hj : j.session.Sound)
    (h : Stage.resolve command defaults j.session.cwd j.wiring = (.ok stage, w)) :
    j.Stumbles command defaults ↔
      ∃ name, stage.name = some name ∧ (j.rewire w).Breaks name stage j.session.cwd := by
  constructor
  · rintro (hparts | ⟨hparts, hr, hbefore, hop, ht, hno⟩ | ⟨hready, hname, hbreaks⟩)
    · have hline := (Stage.resolve_line_iff command defaults j.session.cwd j.wiring).mpr hparts
      rw [h] at hline
      cases hline
    · obtain ⟨e, he⟩ := (Stage.resolve_content_iff command defaults j.session.cwd hj).mpr
        ⟨_, hparts, _, _, _, _, _, _, hr, hbefore, hop, ht, hno⟩
      rw [h] at he
      cases he
    · rw [h] at hready
      cases hready
      exact ⟨_, hname, hbreaks⟩
  · rintro ⟨name, hname, hbreaks⟩
    exact .command h hname hbreaks

/-- No line breaks off at a stage that cannot be read for other reasons than its digits. -/
theorem not_stumbles_of_malformed {command : String} {defaults : Ends} {e : LineError}
    (hj : j.session.Sound) (h : Parts.ofStage command = .error e) (hne : ∀ r, e ≠ .numeral r) :
    ¬ j.Stumbles command defaults := by
  have hresolve : Stage.resolve command defaults j.session.cwd j.wiring =
      (.error (.line e), j.wiring) := by rw [Stage.resolve, h]
  rw [stumbles_iff_of_error hj hresolve]
  rintro (⟨r, hr⟩ | ⟨r, hr⟩)
  · exact hne r (StageError.line.inj hr)
  · cases hr

/-- What is done in a stage: files are opened, there are reports, and the command does what it may
do. -/
inductive StageMayDo (command : String) (defaults : Ends) (j : Job) (e : Effect) : Prop where
  | opens (h : e.Opens (Stage.HasOutput command))
  | reports (h : e.Reports fun n => n = defaults.errors ∨ ∃ stage w,
      Stage.resolve command defaults j.session.cwd j.wiring = (.ok stage, w) ∧
        n = stage.ends.errors)
  | command {stage : Stage} {w : Wiring} {name : String} {c : Command}
    (hready : Stage.resolve command defaults j.session.cwd j.wiring = (.ok stage, w))
    (hname : stage.name = some name)
    (hload : j.session.registry.load w.volume.tree name j.session.bin = .ok c)
    (hc : c.program.isDiagnostic = false)
    (h : c.program.MayDo ((j.rewire w).contextOf stage j.session.cwd) e)

/-- All that a stage may do is plain. -/
theorem StageMayDo.plain {command : String} {defaults : Ends} {e : Effect}
    (h : j.StageMayDo command defaults e) : e.Plain := by
  cases h with
  | opens h => exact h.plain
  | reports h => exact h.plain
  | command _ _ _ _ h => exact h.plain

/-- To run a stage does only what the stage may do. -/
theorem steps_runStage (command : String) (defaults : Ends) (hj : j.session.Sound) :
    Steps (j.StageMayDo command defaults) j (j.runStage command defaults).2 := by
  have hopens := Stage.steps_resolve j command defaults j.session.cwd
  cases hr : Stage.resolve command defaults j.session.cwd j.wiring with
  | mk outcome w =>
    rw [hr] at hopens
    have hready : Steps (j.StageMayDo command defaults) j (j.rewire w) :=
      hopens.mono fun e he => .opens he
    cases outcome with
    | error e =>
      have hreport := fun text => hready.trans ((steps_write (j.rewire w) defaults.errors text).mono
        fun e he => .reports (he.mono fun n => Or.inl))
      rw [runStage, hr]
      cases e with
      | content r => exact hready
      | line e =>
        cases e with
        | numeral r => exact hready
        | _ => exact hreport _
      | _ => exact hreport _
    | ok stage =>
      rw [runStage, hr]
      dsimp only
      cases hname : stage.name with
      | none => exact hready
      | some name =>
        have hrun := steps_runCommand name stage j.session.cwd defaults.errors
          (hopens.plain.sound hj)
        refine hready.trans (hrun.mono fun e he => ?_)
        rcases he with he | ⟨c, hload, hc, he⟩
        · refine .reports (he.mono fun n hn => ?_)
          exact hn.symm.imp_right fun hn => ⟨stage, w, hr, hn⟩
        · exact .command hr hname hload hc he

/-- What it is to run a stage, in codes and in what it breaks off at. -/
theorem runStage_spec (command : String) (defaults : Ends) (hj : j.session.Sound) :
    (∀ code b, (j.runStage command defaults).1 = .ok (code, b) → IsLineCode code) ∧
      ((∃ b, (j.runStage command defaults).1 = .error b) ↔ j.Stumbles command defaults) := by
  have hsteps := (Stage.steps_resolve j command defaults j.session.cwd).plain
  cases hr : Stage.resolve command defaults j.session.cwd j.wiring with
  | mk outcome w =>
    rw [hr] at hsteps
    cases outcome with
    | error e =>
      rw [stumbles_iff_of_error hj hr, runStage, hr]
      cases e with
      | content r => exact ⟨by simp, by simp⟩
      | line e =>
        cases e with
        | numeral r => exact ⟨by simp, by simp⟩
        | _ => exact ⟨by simp [IsLineCode, isExitCode_usage], by simp⟩
      | _ => exact ⟨by simp [IsLineCode, isExitCode_failure], by simp⟩
    | ok stage =>
      have hready : j.Stumbles command defaults ↔
          ∃ name, stage.name = some name ∧ (j.rewire w).Breaks name stage j.session.cwd :=
        stumbles_iff_of_ok hj hr
      rw [hready, runStage, hr]
      dsimp only
      cases hname : stage.name with
      | none => exact ⟨by simp [IsLineCode, isExitCode_success], by simp⟩
      | some name =>
        obtain ⟨hcode, hbreaks⟩ :=
          runCommand_spec name stage j.session.cwd defaults.errors (hsteps.sound hj)
        simp only [Option.some.injEq, exists_eq_left', ← hbreaks]
        cases hc : (j.rewire w).runCommand name stage j.session.cwd defaults.errors with
        | mk outcome j' =>
          rw [hc] at hcode
          cases outcome with
          | error b => exact ⟨by simp [Except.map], by simp [Except.map]⟩
          | ok code =>
            refine ⟨fun code' b h => ?_, by simp [Except.map]⟩
            cases h
            exact hcode code rfl

/-! ## Files with texts only -/

/-- No stream refuses a text in a tree whose files hold texts. -/
theorem not_refuses (ht : j.session.volume.tree.item?.HoldsTexts) (stream : Nat) :
    ¬ j.Refuses stream := by
  rintro ⟨path, cwd, -, hno⟩
  exact Tree.not_holdsNoText ht hno

/-- Where all files hold texts, a line never breaks off at a command. -/
theorem not_breaks (hj : j.session.Sound) (ht : j.session.volume.tree.item?.HoldsTexts) :
    ¬ j.Breaks name stage cwd := by
  rintro (⟨-, hno⟩ | ⟨-, hno⟩ | ⟨hload, hrun, hno⟩)
  · exact Tree.not_holdsNoText ht hno
  · exact not_refuses ht _ hno
  · obtain ⟨entry, hentry⟩ := Registry.exists_get?_of_load hload
    obtain ⟨hsteps, -⟩ := Program.within_run (hj.plain entry _ hentry) (j.contextOf stage cwd) j
    rw [hrun] at hsteps
    have hplain := hsteps.mono fun e he => he.plain
    exact not_refuses (hplain.holdsTexts hj ht) _ hno

/-- Where all files hold texts, a line breaks off at digits only. -/
theorem stumbles_iff_of_texts {command : String} {defaults : Ends} (hj : j.session.Sound)
    (ht : j.session.volume.tree.item?.HoldsTexts) :
    j.Stumbles command defaults ↔ ∃ e, Parts.ofStage command = .error (.numeral e) := by
  constructor
  · intro h
    cases h with
    | digits hparts => exact ⟨_, hparts⟩
    | @append _ before _ _ _ _ _ _ _ hbefore _ _ hno =>
      have hsteps := Redirection.steps_connectAll j j.session.cwd before (Table.ofEnds defaults)
        j.wiring
      rw [hbefore] at hsteps
      exact absurd hno (Tree.not_holdsNoText (hsteps.plain.holdsTexts hj ht))
    | command hready _ hbreaks =>
      have hsteps := (Stage.steps_resolve j command defaults j.session.cwd).plain
      rw [hready] at hsteps
      exact absurd hbreaks (not_breaks (hsteps.sound hj) (hsteps.holdsTexts hj ht))
  · rintro ⟨e, hparts⟩
    exact .digits hparts

end Job

end TreeShell
