import TreeShell.Proofs.Pool
import TreeShell.Proofs.Session.Programs

/-!
# What effects keep

No effect changes the commands of a session or leads a stream elsewhere, and the tree stays one
tree. If the files of the tree hold texts, and the effects write nothing but texts, they still do.
-/

namespace TreeShell

open Job Pool

/-- What the tree and the commands of a session always are: one tree, and commands of which none is
for looking into a session only. -/
structure Session.Sound (s : Session) : Prop where
  wellFormed : s.volume.tree.WellFormed
  plain : ∀ name c, s.registry.get? name = some c → c.program.isDiagnostic = false

namespace Job

variable {j : Job}

/-- To write to a stream that leads to a file is to put the text behind the file's. -/
theorem write_of_file {stream : Nat} {text path cwd : String}
    (h : j.pool.endOf stream = .file path cwd) :
    j.write stream text =
      ((j.session.volume.perform cwd (.write path (.string text) true)).1,
        j.edit cwd (.write path (.string text) true)) := by
  rw [write, Wiring.write, wiring, h]
  rfl

/-- To write to any other stream touches the streams only, and is not refused. -/
theorem write_of_not_file {stream : Nat} {text : String}
    (h : ∀ path cwd, j.pool.endOf stream ≠ .file path cwd) :
    j.write stream text = (.ok (), { j with pool := j.pool.write stream text }) := by
  rw [write, Wiring.write, wiring]
  cases he : j.pool.endOf stream with
  | file path cwd => exact absurd he (h path cwd)
  | _ => rfl

end Job

/-- To change the working directory is to change neither the volume nor the commands. -/
theorem changeDirectory_keeps (s : Session) (path : String) :
    (s.changeDirectory path).2.volume = s.volume ∧
      (s.changeDirectory path).2.registry = s.registry := by
  unfold Session.changeDirectory
  split
  · exact ⟨rfl, rfl⟩
  · exact ⟨rfl, rfl⟩

namespace Effect

/-- No effect touches the registry. -/
theorem registry_apply (e : Effect) (j : Job) :
    (e.apply j).session.registry = j.session.registry := by
  cases e with
  | copy cwd source path =>
    rw [apply]
    split
    · rfl
    · rfl
  | enter path =>
    have hkeeps := (changeDirectory_keeps j.session path).2
    simp only [apply, session_mapSession, hkeeps]
  | _ => rfl

/-- No effect moves or takes away a stream. -/
theorem pool_apply (e : Effect) (j : Job) : j.pool.GrowsTo (e.apply j).pool := by
  cases e with
  | write stream text =>
    rw [apply]
    cases he : j.pool.endOf stream with
    | file path cwd =>
      rw [write_of_file he, pool_edit]
      exact .refl j.pool
    | _ =>
      rw [write_of_not_file fun path cwd => by rw [he]; exact fun h => by cases h]
      exact j.pool.growsTo_write stream text
  | read stream => exact j.pool.growsTo_read stream
  | openKeeping text => exact j.pool.growsTo_addKeeping text
  | openFile path cwd => exact j.pool.growsTo_add _
  | copy cwd source path =>
    rw [apply]
    split
    · rw [pool_edit]
      exact .refl j.pool
    · exact .refl j.pool
  | edit cwd e =>
    rw [apply, pool_edit]
    exact .refl j.pool
  | enter | assign | setAlias | removeAlias | clear =>
    rw [apply, pool_mapSession]
    exact .refl j.pool
  | note level source message => exact .refl j.pool

/-- The volume after an effect is what it was, with at most something noted, or what an edit makes
of it; what that writes is a text, or what some file holds. -/
theorem volume_apply {e : Effect} (h : e.Plain) (j : Job) :
    (∃ journal, (e.apply j).session.volume = { j.session.volume with journal }) ∨
      ∃ cwd edit, (e.apply j).session.volume = (j.session.volume.perform cwd edit).2 ∧
        edit.WritesKnown j.session.volume.tree.item? := by
  cases e with
  | write stream text =>
    rw [apply]
    cases he : j.pool.endOf stream with
    | file path cwd =>
      rw [write_of_file he]
      exact Or.inr ⟨cwd, _, rfl, Or.inl ⟨text, rfl⟩⟩
    | _ =>
      rw [write_of_not_file fun path cwd => by rw [he]; exact fun h => by cases h]
      exact Or.inl ⟨_, rfl⟩
  | edit cwd edit => exact Or.inr ⟨cwd, edit, rfl, h.known _⟩
  | copy cwd source path =>
    rw [apply]
    split
    · next content hc =>
      obtain ⟨a, ha⟩ := Tree.content_eq_ok_iff.mp hc
      exact Or.inr ⟨cwd, _, rfl, Or.inr ⟨rfl, _, a, ha⟩⟩
    · exact Or.inl ⟨_, rfl⟩
  | enter path =>
    have hkeeps := (changeDirectory_keeps j.session path).1
    refine Or.inl ⟨j.session.volume.journal, ?_⟩
    simp only [apply, session_mapSession, hkeeps]
  | _ => exact Or.inl ⟨_, rfl⟩

end Effect

/-- What is kept by notes, and by edits that write nothing but texts and what files hold, is kept by
a run of effects. -/
theorem Steps.volume {P : Volume → Prop} {j j' : Job} (h : Steps Effect.Plain j j')
    (hj : P j.session.volume) (hnote : ∀ v journal, P v → P { v with journal })
    (hedit : ∀ v cwd e, e.WritesKnown v.tree.item? → P v → P (v.perform cwd e).2) :
    P j'.session.volume := by
  refine h.keeps (P := fun k => P k.session.volume) hj fun e k he hk => ?_
  rcases Effect.volume_apply he k with ⟨journal, hv⟩ | ⟨cwd, edit, hv, hwrites⟩
  · rw [hv]
    exact hnote _ journal hk
  · rw [hv]
    exact hedit _ cwd edit hwrites hk

namespace Steps

variable {j j' : Job}

theorem pool {allowed : Effect → Prop} (h : Steps allowed j j') : j.pool.GrowsTo j'.pool :=
  h.keeps (P := fun k => j.pool.GrowsTo k.pool) (.refl _) fun e k _ hk => hk.trans (e.pool_apply k)

theorem registry {allowed : Effect → Prop} (h : Steps allowed j j') :
    j'.session.registry = j.session.registry :=
  h.keeps (P := fun k => k.session.registry = j.session.registry) rfl fun e k _ hk =>
    (e.registry_apply k).trans hk

/-- Effects that write texts keep a tree well-formed. -/
theorem wellFormed (h : Steps Effect.Plain j j') (hj : j.session.volume.tree.WellFormed) :
    j'.session.volume.tree.WellFormed :=
  h.volume (P := fun v => v.tree.WellFormed) hj (fun _ _ hv => hv) fun v cwd e _ hv => by
    rw [Volume.tree_perform]
    exact Tree.wellFormed_perform _ cwd hv e

/-- A run of effects that write nothing but texts and what files hold keeps a session sound. -/
theorem sound (h : Steps Effect.Plain j j') (hj : j.session.Sound) : j'.session.Sound where
  wellFormed := h.wellFormed hj.wellFormed
  plain := by
    rw [h.registry]
    exact hj.plain

/-- Plain steps leave files of a kind that texts are of. -/
theorem wellHolds {kind : Content → Prop} (h : Steps Effect.Plain j j')
    (htext : ∀ text, kind (.string text)) (hj : j.session.volume.tree.WellHolds kind) :
    j'.session.volume.tree.WellHolds kind :=
  h.volume (P := fun v => v.tree.WellHolds kind) hj (fun _ _ hv => hv) fun v cwd e he hv => by
    rw [Volume.tree_perform]
    exact hv.perform htext _ cwd he

/-- If all files hold texts, they go on to do so. -/
theorem holdsTexts (h : Steps Effect.Plain j j') (hj : j.session.Sound)
    (ht : j.session.volume.tree.item?.HoldsTexts) :
    j'.session.volume.tree.item?.HoldsTexts :=
  (h.wellHolds (fun text => ⟨text, rfl⟩) ⟨hj.wellFormed, ht⟩).holds

end Steps

end TreeShell
