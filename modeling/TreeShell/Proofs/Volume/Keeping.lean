import TreeShell.Proofs.Volume.Saving

/-!
# Volumes whose record is kept

An edit of a volume saves the tree that it leaves, unless it leaves the tree as it was. So a volume
that is saved to a cell of memory of which no save fails has the record of its tree there from its
first save on, whatever edits are made.
-/

namespace TreeShell.Volume

/-- What comes of an edit: a tree with the map that the edit should leave, which is saved; nothing,
if the edit has nothing to do; or a refusal. -/
inductive Performed (v : Volume) (cwd : String) (e : Edit) : Except PathError Unit × Volume → Prop
  where
  | saved {t : Tree} (hp : e.Permitted cwd v.tree.item?) (hi : ¬ e.Idle cwd v.tree.item?)
    (hw : t.WellFormed) (hm : t.item? = e.effect v.clock cwd v.tree.item?) :
    Performed v cwd e (.ok (), { v with tree := t }.save)
  | idle (hp : e.Permitted cwd v.tree.item?) (hi : e.Idle cwd v.tree.item?) :
    Performed v cwd e (.ok (), v)
  | refused {r : PathError} (hp : ¬ e.Permitted cwd v.tree.item?) :
    Performed v cwd e (.error r, v)

variable {v : Volume} {c : Nat}

/-- An edit comes to one of its outcomes. -/
theorem performed (h : v.tree.WellFormed) (cwd : String) (e : Edit) :
    Performed v cwd e (v.perform cwd e) := by
  have ho := Tree.outcome_perform v.clock cwd h e
  generalize hc : e.perform v.clock cwd v.tree = change at ho
  cases ho with
  | refused hp hr =>
    rw [perform_of_refused hc]
    exact .refused hp
  | unchanged hp hi =>
    rw [perform_of_unchanged hc]
    exact .idle hp hi
  | changed hp hi hw hm =>
    rw [perform_of_changed hc]
    exact .saved hp hi hw (funext hm)

/-- A volume is saved to a cell of memory, and no save fails. -/
structure SavesTo (c : Nat) (v : Volume) : Prop where
  store : v.store = some (.memory c)
  cell : ∃ cell, v.storage.cells[c]? = some cell ∧ cell.outcomes = []

/-- A volume is saved to a cell of memory that has the record of its tree, and no save fails. -/
structure Saved (c : Nat) (v : Volume) : Prop extends SavesTo c v where
  stored : v.Stored c

/-- A save puts the record of the tree into the cell. -/
theorem SavesTo.save (h : v.SavesTo c) : v.save.Saved c := by
  obtain ⟨cell, hc, hout⟩ := h.cell
  obtain ⟨hstore, hstorage, -⟩ := save_of_store h.store
  obtain ⟨-, hcell⟩ := save_memory hc v.tree.record
  have hsave : (cell.save v.tree.record).2 = ⟨some v.tree.record, cell.saves + 1, []⟩ := by
    rw [Cell.save, hout]
  rw [hsave] at hcell
  rw [← hstorage] at hcell
  exact ⟨⟨hstore, _, hcell, rfl⟩, _, hcell, by rw [tree_save]⟩

/-- A volume goes on saving to its cell after an edit. -/
theorem SavesTo.perform (h : v.SavesTo c) (hw : v.tree.WellFormed) (cwd : String) (e : Edit) :
    (v.perform cwd e).2.SavesTo c := by
  have hp := performed hw cwd e
  generalize v.perform cwd e = result at hp
  cases hp with
  | @saved t =>
    have ht : ({ v with tree := t } : Volume).SavesTo c := ⟨h.store, h.cell⟩
    exact ht.save.toSavesTo
  | idle => exact h
  | refused => exact h

/-- An edit that has something to do, and is not refused, leaves its record in the cell. -/
theorem SavesTo.perform_of_not_idle (h : v.SavesTo c) (hw : v.tree.WellFormed) {cwd : String}
    {e : Edit} {v' : Volume} (hv : v.perform cwd e = (.ok (), v'))
    (hi : ¬ e.Idle cwd v.tree.item?) : v'.Saved c := by
  have hp := performed hw cwd e
  rw [hv] at hp
  cases hp with
  | @saved t =>
    have ht : ({ v with tree := t } : Volume).SavesTo c := ⟨h.store, h.cell⟩
    exact ht.save
  | idle _ hidle => exact absurd hidle hi

/-- A volume that is saved stays so after an edit. -/
theorem Saved.perform (h : v.Saved c) (hw : v.tree.WellFormed) (cwd : String) (e : Edit) :
    (v.perform cwd e).2.Saved c := by
  have hp := performed hw cwd e
  generalize v.perform cwd e = result at hp
  cases hp with
  | @saved t =>
    have ht : ({ v with tree := t } : Volume).SavesTo c := ⟨h.store, h.cell⟩
    exact ht.save
  | idle => exact h
  | refused => exact h

/-- The last of some edits, if it always has something to do, leaves its record in the cell. -/
theorem SavesTo.performAll (h : v.SavesTo c) (hw : v.tree.WellFormed) {es : List Edit} {last : Edit}
    (hlast : es.getLast? = some last) (hi : ∀ m, ¬ last.Idle "/" m) {v' : Volume}
    (hv : v.performAll es = (.ok (), v')) : v'.Saved c := by
  induction es generalizing v with
  | nil => cases hlast
  | cons e rest ih =>
    rw [Volume.performAll] at hv
    split at hv
    · next w hw' =>
      cases rest with
      | nil =>
        cases hlast
        cases hv
        exact h.perform_of_not_idle hw hw' (hi _)
      | cons e' rest =>
        have hstep := h.perform hw "/" e
        have htree := tree_perform v "/" e
        rw [hw'] at hstep htree
        have hwf : w.tree.WellFormed := by
          rw [htree]
          exact Tree.wellFormed_perform _ _ hw e
        exact ih hstep hwf hlast hv
    · cases hv

end TreeShell.Volume
