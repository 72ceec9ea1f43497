import Mathlib.Logic.Relation
import TreeShell.Proofs.Tree.Texts
import TreeShell.Session.Action

/-!
# Effects

The single things that can happen to a job: a text is written or read, a stream is opened, the tree
is edited, the state of the session changes in one place, something is noted. Whatever is run does
nothing but a number of these, one after another, so that what each of them keeps is kept in the
end.
-/

namespace TreeShell

/-- One thing that happens to a job. -/
inductive Effect where
  /-- A text is written to a stream. -/
  | write (stream : Nat) (text : String)
  /-- What a stream has kept is read. -/
  | read (stream : Nat)
  /-- A stream is opened that keeps a text. -/
  | openKeeping (text : String)
  /-- A stream is opened that leads to a file. -/
  | openFile (path cwd : String)
  /-- The tree is edited. -/
  | edit (cwd : String) (e : Edit)
  /-- What one file holds is put into another. -/
  | copy (cwd source path : String)
  /-- The working directory is changed. -/
  | enter (path : String)
  /-- A variable is set. -/
  | assign (name value : String)
  /-- An alias is defined. -/
  | setAlias (name expansion : String)
  /-- An alias is removed. -/
  | removeAlias (name : String)
  /-- The display is to be cleared. -/
  | clear
  /-- Something is noted in the journal. -/
  | note (level : Level) (source : Source) (message : String)

namespace Job

/-- The job with a changed session. -/
def mapSession (j : Job) (f : Session → Session) : Job := { j with session := f j.session }

/-- The job after an edit of its tree. -/
def edit (j : Job) (cwd : String) (e : Edit) : Job :=
  j.mapSession fun s => { s with volume := (s.volume.perform cwd e).2 }

theorem session_mapSession (j : Job) (f : Session → Session) :
    (j.mapSession f).session = f j.session :=
  rfl

theorem pool_mapSession (j : Job) (f : Session → Session) : (j.mapSession f).pool = j.pool := rfl

/-- The tree is edited without a change to the streams. -/
theorem pool_edit (j : Job) (cwd : String) (e : Edit) : (j.edit cwd e).pool = j.pool :=
  j.pool_mapSession _

end Job

namespace Effect

/-- The job after an effect; one that is refused changes nothing. -/
def apply : Effect → Job → Job
  | .write stream text, j => (j.write stream text).2
  | .read stream, j => (j.read stream).2
  | .openKeeping text, j => { j with pool := (j.pool.addKeeping text).1 }
  | .openFile path cwd, j => { j with pool := (j.pool.add (.file path cwd)).1 }
  | .edit cwd e, j => j.edit cwd e
  | .copy cwd source path, j =>
    match j.session.volume.tree.content source cwd with
    | .ok content => j.edit cwd (.write path content false)
    | .error _ => j
  | .enter path, j => j.mapSession fun s => (s.changeDirectory path).2
  | .assign name value, j =>
    j.mapSession fun s => { s with env := (s.env.set? name value).getD s.env }
  | .setAlias name expansion, j => j.mapSession fun s => s.setAlias name expansion
  | .removeAlias name, j => j.mapSession fun s => (s.removeAlias name).2
  | .clear, j => j.mapSession fun s => { s with clears := s.clears + 1 }
  | .note level source message, j => j.note level source message

/-- Whether an effect writes nothing but texts into files, or what a file holds already. -/
def Plain : Effect → Prop
  | .edit _ e => e.WritesText
  | _ => True

/-- Whether an effect is part of opening a file: a stream is opened and, if the file is one for
output, it is made, emptied or left as it is. -/
def Opens (output : Prop) : Effect → Prop
  | .openKeeping _ => True
  | .openFile .. => output
  | .edit _ (.write _ content _) => output ∧ content = .string ""
  | _ => False

/-- To open one more kind of file is allowed where it is allowed to open fewer. -/
theorem Opens.mono {output output' : Prop} {e : Effect} (h : e.Opens output)
    (hle : output → output') : e.Opens output' := by
  cases e with
  | openKeeping text => trivial
  | openFile path cwd => exact hle h
  | edit cwd e =>
    cases e with
    | write path content append => exact ⟨hle h.1, h.2⟩
    | _ => exact h.elim
  | _ => exact h.elim

/-- The only text that is written when a file is opened is the empty one. -/
theorem Opens.plain {output : Prop} {e : Effect} (h : e.Opens output) : e.Plain := by
  cases e with
  | edit cwd e =>
    cases e with
    | write path content append => exact ⟨"", h.2⟩
    | _ => exact h.elim
  | _ => trivial

/-- Whether an effect is part of a report: a text is written to one of some streams, or something is
noted. -/
def Reports (streams : Nat → Prop) : Effect → Prop
  | .write stream _ => streams stream
  | .note .. => True
  | _ => False

/-- A report to some streams is one to more of them. -/
theorem Reports.mono {streams streams' : Nat → Prop} {e : Effect} (h : e.Reports streams)
    (hle : ∀ n, streams n → streams' n) : e.Reports streams' := by
  cases e with
  | write stream text => exact hle stream h
  | note level source message => trivial
  | _ => exact h.elim

/-- A report puts nothing but texts into files. -/
theorem Reports.plain {streams : Nat → Prop} {e : Effect} (h : e.Reports streams) : e.Plain := by
  cases e with
  | edit cwd e => exact h.elim
  | _ => trivial

end Effect

/-- A job comes to another by effects that are allowed. -/
def Steps (allowed : Effect → Prop) : Job → Job → Prop :=
  Relation.ReflTransGen fun j j' => ∃ e, allowed e ∧ e.apply j = j'

namespace Steps

variable {allowed allowed' : Effect → Prop} {j j' j'' : Job}

theorem refl (j : Job) : Steps allowed j j := Relation.ReflTransGen.refl

/-- An effect that is allowed is a run of effects. -/
theorem single {e : Effect} (h : allowed e) (j : Job) : Steps allowed j (e.apply j) :=
  Relation.ReflTransGen.single ⟨e, h, rfl⟩

theorem trans (h : Steps allowed j j') (h' : Steps allowed j' j'') : Steps allowed j j'' :=
  Relation.ReflTransGen.trans h h'

/-- A run of effects is one of more kinds of effects. -/
theorem mono (h : Steps allowed j j') (hle : ∀ e, allowed e → allowed' e) :
    Steps allowed' j j' := by
  induction h with
  | refl => exact refl j
  | tail _ hstep ih =>
    obtain ⟨e, he, rfl⟩ := hstep
    exact ih.trans (single (hle e he) _)

/-- To open files writes nothing but texts. -/
theorem plain {output : Prop} (h : Steps (Effect.Opens output) j j') : Steps Effect.Plain j j' :=
  h.mono fun _ => Effect.Opens.plain

/-- To report writes nothing but texts. -/
theorem reported {streams : Nat → Prop} (h : Steps (Effect.Reports streams) j j') :
    Steps Effect.Plain j j' :=
  h.mono fun _ => Effect.Reports.plain

/-- What each of the effects keeps is kept by a run of them. -/
theorem keeps {P : Job → Prop} (h : Steps allowed j j') (hj : P j)
    (hstep : ∀ e j, allowed e → P j → P (e.apply j)) : P j' := by
  induction h with
  | refl => exact hj
  | tail _ htail ih =>
    obtain ⟨e, he, rfl⟩ := htail
    exact hstep e _ he ih

end Steps

end TreeShell
