import TreeShell.Proofs.Session.Descriptors
import TreeShell.Proofs.Volume.Refusals

/-!
# What a stage leaves that cannot be made ready

Redirections are applied in order, and each file is opened in its turn. When one of them fails,
those before it have been applied, and what was opened for them stays: files that were made, or
emptied. The failing one itself, and those behind it, leave nothing. So a stage leaves all as it was
if it cannot be read, or no file is to be written before the redirection that fails.
-/

namespace TreeShell

open TreeShell.Path

/-! ## Files opened in order -/

namespace Redirection

variable {r : Redirection} {path : String}

/-- The edit that opens the file of a redirection, if that is for writing. -/
def opening? (r : Redirection) : Option Edit :=
  match r.operator, r.target with
  | .write, .file path => some (.write path (.string "") false)
  | .append, .file path => some (.write path (.string "") true)
  | _, _ => none

/-- An output to a file opens it for writing. -/
theorem opening?_of_output (hop : r.operator = .write ∨ r.operator = .append)
    (ht : r.target = .file path) :
    r.opening? = some (.write path (.string "") (r.operator = .append)) := by
  rcases hop with hop | hop
  · rw [opening?, hop, ht]
    rfl
  · rw [opening?, hop, ht]
    rfl

end Redirection

open Redirection

namespace Volume

variable {v v' v'' : Volume} {cwd path : String} {append : Bool} {r : Redirection}
  {rs : List Redirection}

/-- Edits that lead from one volume to another, one after another; none is refused. -/
inductive Makes (cwd : String) (v : Volume) : List Edit → Volume → Prop
  | nil : Makes cwd v [] v
  | snoc {es : List Edit} {e : Edit} {v' v'' : Volume} (h : Makes cwd v es v')
    (he : v'.perform cwd e = (.ok (), v'')) : Makes cwd v (es ++ [e]) v''

/-- No edits make no other volume. -/
theorem Makes.eq_of_nil {es : List Edit} (h : v.Makes cwd es v') (hes : es = []) : v' = v := by
  cases h with
  | nil => rfl
  | snoc => exact absurd hes (by simp)

/-- A file that is opened for writing holds nothing then, or the text that it held if that is to be
written behind. -/
theorem puts_nothing_or_old (h : v.tree.WellFormed)
    (hv : v.perform cwd (.write path (.string "") append) = (.ok (), v')) :
    ∃ text, v.Puts (resolve path cwd) (.string text) v' ∧
      (text = "" ∨ append = true ∧
        v.tree.item?.content? (resolve path cwd) = some (.string text)) := by
  obtain ⟨text, hputs, htext⟩ := puts_of_open h hv
  refine ⟨text, hputs, ?_⟩
  cases append with
  | false => exact Or.inl htext
  | true =>
    rw [if_pos rfl] at htext
    cases hold : v.tree.item?.content? (resolve path cwd) with
    | none =>
      rw [hold] at htext
      cases htext
      exact Or.inl rfl
    | some content =>
      rw [hold, Option.getD_some] at htext
      exact Or.inr ⟨rfl, congrArg some htext⟩

/-- What is left of a volume when redirections have been applied: files were made or emptied. -/
structure Opened (rs : List Redirection) (cwd : String) (v v' : Volume) : Prop where
  wellFormed : v'.tree.WellFormed
  /-- The files to be written were opened in order, and nothing else was done. -/
  makes : v.Makes cwd (rs.filterMap opening?) v'
  /-- Elsewhere all is as it was. -/
  elsewhere : ∀ p, p ∉ rs.filterMap (outputPlace? cwd) → v'.tree.item? p = v.tree.item? p
  /-- Each of them holds a text. -/
  held : ∀ p ∈ rs.filterMap (outputPlace? cwd),
    ∃ text, v'.tree.item?.content? p = some (.string text)
  /-- What a file holds is what it held before, or nothing. -/
  keptOrEmptied : ∀ p, v'.tree.item?.content? p = v.tree.item?.content? p ∨
    v'.tree.item?.content? p = some (.string "")
  /-- It is nothing if the file was to be overwritten. -/
  emptied : ∀ r ∈ rs, r.operator = .write → ∀ p, outputPlace? cwd r = some p →
    v'.tree.item?.content? p = some (.string "")

/-- No files are opened by no redirections. -/
theorem Opened.refl (h : v.tree.WellFormed) (cwd : String) : Opened [] cwd v v where
  wellFormed := h
  makes := .nil
  elsewhere _ _ := rfl
  held _ hp := absurd hp List.not_mem_nil
  keptOrEmptied _ := Or.inl rfl
  emptied _ hr := absurd hr List.not_mem_nil

/-- A redirection that opens no file for writing changes nothing. -/
theorem Opened.idle (h : Opened rs cwd v v') (hopening : r.opening? = none)
    (hplace : outputPlace? cwd r = none) : Opened (rs ++ [r]) cwd v v' := by
  have hopenings : (rs ++ [r]).filterMap opening? = rs.filterMap opening? := by
    rw [List.filterMap_append, List.filterMap_cons_none hopening, List.filterMap_nil,
      List.append_nil]
  have hplaces : (rs ++ [r]).filterMap (outputPlace? cwd) = rs.filterMap (outputPlace? cwd) := by
    rw [List.filterMap_append, List.filterMap_cons_none hplace, List.filterMap_nil,
      List.append_nil]
  refine ⟨h.wellFormed, hopenings.symm ▸ h.makes, hplaces.symm ▸ h.elsewhere,
    hplaces.symm ▸ h.held, h.keptOrEmptied, fun r' hr' hop p hp => ?_⟩
  rcases List.mem_append.mp hr' with hr' | hr'
  · exact h.emptied r' hr' hop p hp
  · rw [List.mem_singleton.mp hr', hplace] at hp
    cases hp

/-- A redirection that opens a file for writing makes or empties it, or leaves it as it is. -/
theorem Opened.output (h : Opened rs cwd v v') (hop : r.operator = .write ∨ r.operator = .append)
    (ht : r.target = .file path)
    (hv : v'.perform cwd (.write path (.string "") (r.operator = .append)) = (.ok (), v'')) :
    Opened (rs ++ [r]) cwd v v'' := by
  have hopenings : (rs ++ [r]).filterMap opening? =
      rs.filterMap opening? ++ [.write path (.string "") (r.operator = .append)] := by
    rw [List.filterMap_append, List.filterMap_cons_some (opening?_of_output hop ht),
      List.filterMap_nil]
  have hplace : outputPlace? cwd r = some (resolve path cwd) := outputPlace?_of_output hop ht
  have hplaces : (rs ++ [r]).filterMap (outputPlace? cwd) =
      rs.filterMap (outputPlace? cwd) ++ [resolve path cwd] := by
    rw [List.filterMap_append, List.filterMap_cons_some hplace, List.filterMap_nil]
  obtain ⟨text, hputs, htext⟩ := puts_nothing_or_old h.wellFormed hv
  refine ⟨hputs.wellFormed, hopenings.symm ▸ h.makes.snoc hv, fun p hp => ?_, fun p hp => ?_,
    fun p => ?_, fun r' hr' hwrite p hp => ?_⟩
  · rw [hplaces, List.mem_append, List.mem_singleton, not_or] at hp
    exact (hputs.elsewhere p hp.2).trans (h.elsewhere p hp.1)
  · by_cases he : p = resolve path cwd
    · exact ⟨text, he ▸ hputs.content⟩
    · rw [hplaces, List.mem_append, List.mem_singleton, or_iff_left he] at hp
      obtain ⟨old, hold⟩ := h.held p hp
      exact ⟨old, (hputs.content?_of_ne he).trans hold⟩
  · by_cases he : p = resolve path cwd
    · subst he
      rw [hputs.content]
      rcases htext with rfl | ⟨-, hold⟩
      · exact Or.inr rfl
      · exact hold ▸ h.keptOrEmptied _
    · rw [hputs.content?_of_ne he]
      exact h.keptOrEmptied p
  · by_cases he : p = resolve path cwd
    · subst he
      rw [hputs.content]
      rcases htext with rfl | ⟨happend, hold⟩
      · rfl
      · -- it was emptied before, since this redirection is not the one that overwrites
        rcases List.mem_append.mp hr' with hr' | hr'
        · rw [← hold]
          exact h.emptied r' hr' hwrite _ hp
        · rw [List.mem_singleton.mp hr'] at hwrite
          rw [hwrite] at happend
          exact absurd happend (by decide)
    · rw [hputs.content?_of_ne he]
      rcases List.mem_append.mp hr' with hr' | hr'
      · exact h.emptied r' hr' hwrite p hp
      · rw [List.mem_singleton.mp hr', hplace] at hp
        exact absurd (Option.some.inj hp).symm he

end Volume

namespace Redirection

variable {r : Redirection} {rs : List Redirection} {table table' : Table} {cwd : String}
  {w w' : Wiring} {n : Nat} {e : StageError}

/-- What is opened for redirections that are applied one after another. -/
theorem opened_of_connectAll (hw : w.volume.tree.WellFormed)
    (h : connectAll cwd rs table w = (.ok table', w')) : w.volume.Opened rs cwd w'.volume := by
  induction rs using List.reverseRecOn generalizing table' w' with
  | nil =>
    cases h
    exact .refl hw cwd
  | append_singleton rs r ih =>
    obtain ⟨t, u, hbefore, hlast⟩ := connectAll_eq_ok_append h
    obtain ⟨n, hr, -⟩ := connectAll_eq_ok_singleton hlast
    have hopened := ih hbefore
    cases hr with
    | copied ht => exact hopened.idle (by simp [opening?, ht]) (by simp [outputPlace?, ht])
    | read hop => exact hopened.idle (by simp [opening?, hop]) (by simp [outputPlace?, hop])
    | written hop ht hv => exact hopened.output hop ht hv

/-- Redirections leave what the sinks have received. -/
theorem connectAll_sinks (h : connectAll cwd rs table w = (.ok table', w')) :
    w'.pool.sinks = w.pool.sinks :=
  connectAll_keeps (P := fun u => u.pool.sinks = w.pool.sinks) h rfl fun _ _ _ _ _ hr hu => by
    cases hr <;> exact hu

/-- A redirection that fails leaves all as it was. -/
theorem connect_eq_of_error (hw : w.volume.tree.WellFormed)
    (h : r.connect table cwd w = (.error e, w')) : w' = w := by
  unfold connect at h
  split at h
  · cases h
    rfl
  · split at h
    · cases h
      rfl
    · cases h
  · rcases r.operator_cases with hop | hop | hop
    · rw [openFile, hop] at h
      cases h
      rfl
    · rw [openFile, hop] at h
      dsimp only at h
      split at h
      · cases h
        rfl
      · cases h
    · rw [openFile_of_output hop] at h
      split at h
      · next hv =>
        have hsame := Volume.perform_eq_of_error hw (congrArg Prod.fst hv)
        rw [hv] at hsame
        cases h
        exact congrArg (fun volume => { w with volume }) hsame
      · cases h

/-- When redirections fail, one of them fails after those before it have been applied. -/
theorem connectAll_eq_error (hw : w.volume.tree.WellFormed)
    (h : connectAll cwd rs table w = (.error e, w')) :
    ∃ before r after t, rs = before ++ r :: after ∧
      connectAll cwd before table w = (.ok t, w') ∧ r.connect t cwd w' = (.error e, w') := by
  induction rs generalizing table w with
  | nil => cases h
  | cons r rest ih =>
    rw [connectAll] at h
    split at h
    · next hr =>
      cases h
      obtain rfl := connect_eq_of_error hw hr
      exact ⟨[], r, rest, table, rfl, rfl, hr⟩
    · next hr =>
      obtain ⟨before, r', after, t, rfl, hbefore, hfails⟩ := ih ((connected hr).wellFormed hw) h
      refine ⟨r :: before, r', after, t, rfl, ?_, hfails⟩
      rw [connectAll, hr]
      exact hbefore

end Redirection

/-! ## A stage that fails -/

namespace Stage

variable {command cwd : String} {defaults : Ends} {w w' : Wiring} {e : StageError}
  {before : List Redirection}

/-- How a stage comes not to be ready, and which of its redirections have been applied by then. -/
inductive FailsAfter (command : String) (defaults : Ends) (cwd : String) (w : Wiring) :
    StageError → List Redirection → Wiring → Prop
  /-- It cannot be read, whatever stands in it. -/
  | unread {e : LineError} (h : Parts.ofStage command = .error e) :
    FailsAfter command defaults cwd w (.line e) [] w
  /-- A redirection fails when those before it have been applied. -/
  | refused {parts : Parts} {before after : List Redirection} {r : Redirection} {table : Table}
    {e : StageError} {w' : Wiring} (hparts : Parts.ofStage command = .ok parts)
    (hsplit : parts.redirections = before ++ r :: after)
    (hbefore : connectAll cwd before (Table.ofEnds defaults) w = (.ok table, w'))
    (hfails : r.connect table cwd w' = (.error e, w')) :
    FailsAfter command defaults cwd w e before w'

/-- What a stage leaves that is not ready, if some of its redirections have been applied. -/
structure Leaves (before : List Redirection) (cwd : String) (w w' : Wiring) : Prop where
  /-- The streams that were there are as they were. -/
  streams : ∀ (n : Nat) (s : Stream), w.pool.streams[n]? = some s → w'.pool.streams[n]? = some s
  /-- Nothing was handed to a sink. -/
  sinks : w'.pool.sinks = w.pool.sinks
  /-- The volume is as it was, if none of these redirections opens a file for writing. -/
  untouched : (∀ r ∈ before, r.opening? = none) → w'.volume = w.volume
  /-- Otherwise their files have been opened. -/
  opened : w.volume.Opened before cwd w'.volume

/-- A stage that fails does so after some of its redirections. -/
theorem resolve_eq_error (hw : w.volume.tree.WellFormed)
    (h : resolve command defaults cwd w = (.error e, w')) :
    ∃ before, FailsAfter command defaults cwd w e before w' := by
  unfold resolve at h
  split at h
  · next hparts =>
    cases h
    exact ⟨[], .unread hparts⟩
  · next hparts =>
    split at h
    · next hfails =>
      cases h
      obtain ⟨before, r, after, t, hsplit, hbefore, hr⟩ := connectAll_eq_error hw hfails
      exact ⟨before, .refused hparts hsplit hbefore hr⟩
    · cases h

/-- A stage that fails leaves what the redirections before have opened. -/
theorem FailsAfter.leaves (hw : w.volume.tree.WellFormed)
    (h : FailsAfter command defaults cwd w e before w') : Leaves before cwd w w' := by
  cases h with
  | unread => exact ⟨fun _ _ hs => hs, rfl, fun _ => rfl, .refl hw cwd⟩
  | refused _ _ hbefore =>
    have hopened := opened_of_connectAll hw hbefore
    refine ⟨fun _ _ hs => connectAll_streams hbefore hs, connectAll_sinks hbefore, fun hno => ?_,
      hopened⟩
    exact hopened.makes.eq_of_nil (List.filterMap_eq_nil_iff.mpr hno)

/-- When a stage cannot be made ready, some of its redirections have been applied, up to the one
that fails; the streams are left as they were, and so is the volume but for the files that were
opened for writing by those redirections. -/
theorem failed_leaves_openings (hw : w.volume.tree.WellFormed)
    (h : resolve command defaults cwd w = (.error e, w')) :
    ∃ before, FailsAfter command defaults cwd w e before w' ∧ Leaves before cwd w w' := by
  obtain ⟨before, hfails⟩ := resolve_eq_error hw h
  exact ⟨before, hfails, hfails.leaves hw⟩

/-- Three streams over a volume with a file that holds something. -/
def overFile : Wiring where
  volume :=
    ((Volume.unsaved (Tree.empty 0) 0).serve [⟨1, "/", .edit (.write "f" (.string "old") false)⟩]).2
  pool := ⟨[⟨.kept, ""⟩, ⟨.kept, ""⟩, ⟨.kept, ""⟩], []⟩

/-- This stage fails for its input after its output was opened. -/
theorem resolve_overFile :
    resolve "cat > f < nope" ⟨0, 1, 2⟩ "/" overFile =
      (.error (.file (.notFound "nope")),
        (connectAll "/" [⟨1, .write, .file "f"⟩] (Table.ofEnds ⟨0, 1, 2⟩) overFile).2) := by
  have hparts : Parts.ofStage "cat > f < nope" =
      .ok ⟨["cat"], [⟨1, .write, .file "f"⟩, ⟨0, .read, .file "nope"⟩]⟩ := by
    decide +kernel
  rw [resolve, hparts]
  rfl

/-- For a stage with a file that is missing, this tells what is left of the file before. -/
theorem failed_leaves_opening_of_output :
    ∃ before, FailsAfter "cat > f < nope" ⟨0, 1, 2⟩ "/" overFile (.file (.notFound "nope")) before
        (resolve "cat > f < nope" ⟨0, 1, 2⟩ "/" overFile).2 ∧
      Leaves before "/" overFile (resolve "cat > f < nope" ⟨0, 1, 2⟩ "/" overFile).2 := by
  have hw : overFile.volume.tree.WellFormed :=
    Volume.wellFormed_serve (v := Volume.unsaved (Tree.empty 0) 0) (Or.inl rfl) _
  refine failed_leaves_openings hw ?_
  rw [resolve_overFile]

/-- The redirection before the one that fails has emptied its file. -/
theorem failed_has_emptied_file :
    overFile.volume.tree.item?.content? ["f"] = some (.string "old") ∧
      (resolve "cat > f < nope" ⟨0, 1, 2⟩ "/" overFile).1 = .error (.file (.notFound "nope")) ∧
      (resolve "cat > f < nope" ⟨0, 1, 2⟩ "/" overFile).2.volume.tree.item?.content? ["f"] =
        some (.string "") ∧
      (resolve "cat > f < nope" ⟨0, 1, 2⟩ "/" overFile).2.volume.tree.record ≠
        overFile.volume.tree.record := by
  rw [resolve_overFile]
  refine ⟨rfl, rfl, rfl, fun he => ?_⟩
  have htext := congrArg Json.compact he
  exact absurd htext (by decide +kernel)

end Stage

end TreeShell
