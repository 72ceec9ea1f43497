import TreeShell.Proofs.Session.Splices

/-!
# Actions with and without a pipe

Two actions are alike if, done to two jobs whose pools are joined and that have the same session,
they return the same or fail alike, and leave two such jobs. Every way to put actions together makes
alike actions of alike ones.
-/

namespace TreeShell

/-- The streams that go with those of a stage. -/
def Ends.map (f : Nat → Nat) (ends : Ends) : Ends := ⟨f ends.input, f ends.output, f ends.errors⟩

/-- The streams of a stage are mapped one by one. -/
theorem Ends.get_map (f : Nat → Nat) (ends : Ends) (k : Fin 3) :
    (ends.map f).get k = f (ends.get k) := by
  fin_cases k <;> rfl

/-- What a command is given without the pipe, where this is what it is given with it. -/
def Context.without (ctx : Context) (σ : Splice) : Context :=
  { ctx with ends := ctx.ends.map σ.map }

/-! ## Two jobs -/

/-- Two jobs with the same session and with joined pools. -/
structure Splice.Paired (σ : Splice) (j j' : Job) : Prop where
  session : j'.session = j.session
  joins : σ.Joins j.pool j'.pool

namespace Splice.Paired

variable {σ : Splice} {j j' : Job} {n : Nat}

/-- The sessions of both sides may change alike. -/
theorem mapSession (h : σ.Paired j j') (f : Session → Session) :
    σ.Paired (j.mapSession f) (j'.mapSession f) :=
  ⟨congrArg f h.session, h.joins⟩

/-- An edit is performed alike on both sides. -/
theorem edit (h : σ.Paired j j') (cwd : String) (e : Edit) :
    σ.Paired (j.edit cwd e) (j'.edit cwd e) :=
  h.mapSession fun s => { s with volume := (s.volume.perform cwd e).2 }

/-- A text that is written to a port is refused in both jobs, or in neither. -/
theorem write (h : σ.Paired j j') (hn : σ.Port j.pool j'.pool n) (text : String) :
    (j.write n text).1 = (j'.write (σ.map n) text).1 ∧
      σ.Paired (j.write n text).2 (j'.write (σ.map n) text).2 := by
  rcases h.joins.endOf_port hn with ⟨path, cwd, hend, hend'⟩ | ⟨htakes, htakes', hends⟩
  · rw [Job.write_of_file hend, Job.write_of_file hend']
    exact ⟨by rw [h.session], h.edit cwd _⟩
  · rw [Job.write_of_not_file htakes.ne_file, Job.write_of_not_file htakes'.ne_file]
    exact ⟨rfl, h.session, h.joins.write htakes htakes' hends text⟩

/-- What is read from a port is the same in both jobs. -/
theorem read (h : σ.Paired j j') (hn : σ.Port j.pool j'.pool n)
    (hdry : n = σ.pipe → j.pool.heard (.keeper σ.pipe) = "") :
    (j.read n).1 = (j'.read (σ.map n)).1 ∧ σ.Paired (j.read n).2 (j'.read (σ.map n)).2 := by
  obtain ⟨htext, hjoins⟩ := h.joins.read hn hdry
  exact ⟨htext, h.session, hjoins⟩

/-- What is reported is refused in both jobs, or in neither. -/
theorem report (h : σ.Paired j j') (hn : σ.Port j.pool j'.pool n) (text : String) :
    (j.report n σ.errors text).1 = (j'.report (σ.map n) σ.errors text).1 ∧
      σ.Paired (j.report n σ.errors text).2 (j'.report (σ.map n) σ.errors text).2 := by
  obtain ⟨houtcome, hpaired⟩ := h.write hn text
  unfold Job.report
  generalize j.write n text = first at houtcome hpaired
  generalize j'.write (σ.map n) text = first' at houtcome hpaired
  obtain ⟨outcome, k⟩ := first
  obtain ⟨outcome', k'⟩ := first'
  obtain rfl : outcome = outcome' := houtcome
  obtain ⟨-, hagain⟩ := hpaired.write .errors text
  rw [σ.map_errors] at hagain
  cases outcome with
  | ok _ => exact ⟨rfl, hpaired⟩
  | error e =>
    cases e with
    | content r => exact ⟨rfl, hpaired⟩
    | _ => exact ⟨rfl, hagain⟩

end Splice.Paired

/-- Two such jobs, and the streams of a stage that both run. -/
structure Splice.Twins (σ : Splice) (ends : Ends) (j j' : Job) : Prop where
  paired : σ.Paired j j'
  ports : ∀ k, σ.Port j.pool j'.pool (ends.get k)

namespace Splice.Twins

variable {σ : Splice} {ends : Ends} {j j' : Job}

/-- Twins stay twins when their sessions change alike. -/
theorem mapSession (h : σ.Twins ends j j') (f : Session → Session) :
    σ.Twins ends (j.mapSession f) (j'.mapSession f) :=
  ⟨h.paired.mapSession f, h.ports⟩

/-- Twins stay twins after an edit on both sides. -/
theorem edit (h : σ.Twins ends j j') (cwd : String) (e : Edit) :
    σ.Twins ends (j.edit cwd e) (j'.edit cwd e) :=
  ⟨h.paired.edit cwd e, h.ports⟩

/-- Twins stay twins after a note on both sides. -/
theorem note (h : σ.Twins ends j j') (level : Level) (source : Source) (message : String) :
    σ.Twins ends (j.note level source message) (j'.note level source message) :=
  h.mapSession fun s => s.note level source message

/-- Twin jobs that write to twin streams are twins, and refuse alike. -/
theorem write (h : σ.Twins ends j j') (k : Fin 3) (text : String) :
    (j.write (ends.get k) text).1 = (j'.write (σ.map (ends.get k)) text).1 ∧
      σ.Twins ends (j.write (ends.get k) text).2 (j'.write (σ.map (ends.get k)) text).2 := by
  obtain ⟨houtcome, hpaired⟩ := h.paired.write (h.ports k) text
  exact ⟨houtcome, hpaired, fun i =>
    (h.ports i).mono ((Effect.write _ text).pool_apply j) ((Effect.write _ text).pool_apply j')⟩

/-- Twin jobs read the same from their inputs, unless one is the pipe and something was written to
it. -/
theorem read (h : σ.Twins ends j j')
    (hdry : ends.input = σ.pipe → j.pool.heard (.keeper σ.pipe) = "") :
    (j.read ends.input).1 = (j'.read (σ.map ends.input)).1 ∧
      σ.Twins ends (j.read ends.input).2 (j'.read (σ.map ends.input)).2 := by
  obtain ⟨htext, hpaired⟩ := h.paired.read (h.ports 0) hdry
  exact ⟨htext, hpaired, fun i =>
    (h.ports i).mono (j.pool.growsTo_read _) (j'.pool.growsTo_read _)⟩

end Splice.Twins

/-! ## Two actions -/

namespace Action

variable {α β : Type}

/-- Two actions come to the same at two jobs, and leave twins. -/
def Agree (σ : Splice) (ends : Ends) (j j' : Job) (action action' : Action α) : Prop :=
  (result action j).1 = (result action' j').1 ∧
    σ.Twins ends (result action j).2 (result action' j').2

/-- Two actions come to the same at any twins. -/
def Alike (σ : Splice) (ends : Ends) (action action' : Action α) : Prop :=
  ∀ j j', σ.Twins ends j j' → Agree σ ends j j' action action'

/-- Two actions come to the same at twins where nothing has been written to the pipe that the stage
could read. -/
def AlikeAtFirst (σ : Splice) (ends : Ends) (action action' : Action α) : Prop :=
  ∀ j j', σ.Twins ends j j' → (ends.input = σ.pipe → j.pool.heard (.keeper σ.pipe) = "") →
    Agree σ ends j j' action action'

variable {σ : Splice} {ends : Ends}

/-- Actions that agree on jobs come to one outcome and to twins. -/
theorem Agree.exists_results {action action' : Action α} {j j' : Job}
    (h : Agree σ ends j j' action action') :
    ∃ outcome k k', result action j = (outcome, k) ∧ result action' j' = (outcome, k') ∧
      σ.Twins ends k k' :=
  ⟨(result action j).1, (result action j).2, (result action' j').2, rfl, Prod.ext h.1.symm rfl, h.2⟩

/-- One action after another: from the same value of the first, the second is done alike. -/
theorem Agree.bind {action action' : Action α} {next next' : α → Action β} {j j' : Job}
    (h : Agree σ ends j j' action action') (hnext : ∀ a, Alike σ ends (next a) (next' a)) :
    Agree σ ends j j' (action >>= next) (action' >>= next') := by
  obtain ⟨outcome, k, k', hr, hr', htwins⟩ := h.exists_results
  rw [Agree, result_bind, result_bind, hr, hr']
  cases outcome with
  | ok a => exact hnext a k k' htwins
  | error fault => exact ⟨rfl, htwins⟩

/-- To do to both jobs what leaves twins. -/
theorem Agree.allow {f f' : Job → Except PathError α × Job} {j j' : Job}
    (h : (f j).1 = (f' j').1 ∧ σ.Twins ends (f j).2 (f' j').2) :
    Agree σ ends j j' (Action.allow f) (Action.allow f') := by
  obtain ⟨houtcome, htwins⟩ := h
  rw [Agree, result_allow, result_allow]
  generalize f j = first at houtcome htwins
  generalize f' j' = first' at houtcome htwins
  obtain ⟨outcome, k⟩ := first
  obtain ⟨outcome', k'⟩ := first'
  obtain rfl : outcome = outcome' := houtcome
  cases outcome with
  | ok a => exact ⟨rfl, htwins⟩
  | error e => exact ⟨rfl, htwins⟩

/-- What is read is the same, if it is not read from a pipe that is not empty. -/
theorem Agree.read {j j' : Job} (h : σ.Twins ends j j')
    (hdry : ends.input = σ.pipe → j.pool.heard (.keeper σ.pipe) = "") :
    Agree σ ends j j' (Action.read ends.input) (Action.read (ends.map σ.map).input) := by
  obtain ⟨htext, htwins⟩ := h.read hdry
  exact .allow ⟨congrArg Except.ok htext, htwins⟩

namespace Alike

/-- Actions that are alike in any case are so at first. -/
theorem atFirst {action action' : Action α} (h : Alike σ ends action action') :
    AlikeAtFirst σ ends action action' :=
  fun j j' hj _ => h j j' hj

/-- A value is the same on both sides. -/
theorem pure (a : α) : Alike σ ends (pure a) (pure a) := fun _ _ h => ⟨rfl, h⟩

/-- A fault is the same on both sides. -/
theorem throw (fault : Fault) : Alike σ ends (throw fault : Action α) (throw fault) :=
  fun _ _ h => ⟨rfl, h⟩

/-- The session is the same on both sides. -/
theorem session : Alike σ ends session session := fun j j' h => by
  rw [Agree, result_session, result_session, h.paired.session]
  exact ⟨rfl, h⟩

/-- A change of the session is the same on both sides. -/
theorem change (f : Session → Session) : Alike σ ends (change f) (change f) := fun j j' h => by
  rw [Agree, result_change, result_change]
  exact ⟨rfl, h.mapSession f⟩

/-- Actions one after another are alike if each of them is. -/
theorem bind {action action' : Action α} {next next' : α → Action β}
    (h : Alike σ ends action action') (hnext : ∀ a, Alike σ ends (next a) (next' a)) :
    Alike σ ends (action >>= next) (action' >>= next') :=
  fun j j' hj => (h j j' hj).bind hnext

/-- One of two actions, by a condition that is the same for both jobs. -/
theorem ite {c : Prop} [Decidable c] {action action' other other' : Action α}
    (h : c → Alike σ ends action action') (hother : ¬ c → Alike σ ends other other') :
    Alike σ ends (if c then action else other) (if c then action' else other') := by
  split
  · next hc => exact h hc
  · next hc => exact hother hc

/-- Twin jobs have one tree, and ask it alike. -/
theorem ask (f : Tree → Except PathError α) : Alike σ ends (ask f) (ask f) := by
  refine session.bind fun s => ?_
  split
  · exact .pure _
  · exact .throw _

/-- What is needed of a content is the same on both sides. -/
theorem need (text : Except ContentError String) : Alike σ ends (need text) (need text) := by
  unfold Action.need
  split
  · exact .pure _
  · exact .throw _

/-- An outcome is the same on both sides. -/
theorem lift (outcome : Except Fault α) :
    Alike σ ends (liftM outcome : Action α) (liftM outcome) := by
  cases outcome with
  | ok a => exact .pure a
  | error fault => exact .throw fault

/-- An edit is the same on both sides. -/
theorem edit (cwd : String) (e : Edit) : Alike σ ends (edit cwd e) (edit cwd e) :=
  fun _ _ h => .allow ⟨by rw [h.paired.session], h.edit cwd e⟩

/-- A write to a stream of the stage is one to the stream it is mapped to. -/
theorem write (k : Fin 3) (text : String) :
    Alike σ ends (write (ends.get k) text) (write ((ends.map σ.map).get k) text) :=
  fun _ _ h => .allow (by rw [Ends.get_map]; exact h.write k text)

/-- What a command reads that is not bound to the pipe. -/
theorem read (hne : ends.input ≠ σ.pipe) :
    Alike σ ends (read ends.input) (read (ends.map σ.map).input) :=
  fun _ _ h => .read h fun he => absurd he hne

/-- A refusal is met alike. -/
theorem attempt {action action' : Action α} (h : Alike σ ends action action') :
    Alike σ ends (attempt action) (attempt action') := by
  intro j j' hj
  obtain ⟨outcome, k, k', hr, hr', htwins⟩ := (h j j' hj).exists_results
  rw [Agree, result_attempt, result_attempt, hr, hr']
  cases outcome with
  | ok a => exact ⟨rfl, htwins⟩
  | error fault => cases fault <;> exact ⟨rfl, htwins⟩

/-- What is done for each of some things, one after another. -/
theorem forIn {l : List α} {body body' : α → PUnit → Action (ForInStep PUnit)}
    (h : ∀ a ∈ l, Alike σ ends (body a ⟨⟩) (body' a ⟨⟩)) :
    Alike σ ends (forIn l PUnit.unit body) (forIn l PUnit.unit body') := by
  induction l with
  | nil => exact .pure _
  | cons a l ih =>
    rw [List.forIn_cons, List.forIn_cons]
    refine (h a List.mem_cons_self).bind fun step => ?_
    cases step with
    | done _ => exact .pure _
    | yield _ => exact ih fun b hb => h b (List.mem_cons_of_mem a hb)

/-- What is done for each of some things is alike if it is alike for one. -/
theorem each {action action' : α → Action Bool} {l : List α}
    (h : ∀ a ∈ l, Alike σ ends (action a) (action' a)) :
    Alike σ ends (each action l) (each action' l) := by
  induction l with
  | nil => exact .pure _
  | cons a l ih =>
    refine (h a List.mem_cons_self).bind fun done => ?_
    exact (ih fun b hb => h b (List.mem_cons_of_mem a hb)).bind fun code => .pure _

end Alike

namespace AlikeAtFirst

/-- What is read first. -/
theorem read : AlikeAtFirst σ ends (read ends.input) (read (ends.map σ.map).input) :=
  fun _ _ h hdry => .read h hdry

/-- Actions that are alike at first may be followed by actions that are alike. -/
theorem bind {action action' : Action α} {next next' : α → Action β}
    (h : AlikeAtFirst σ ends action action') (hnext : ∀ a, Alike σ ends (next a) (next' a)) :
    AlikeAtFirst σ ends (action >>= next) (action' >>= next') :=
  fun j j' hj hdry => (h j j' hj hdry).bind hnext

end AlikeAtFirst

end Action

end TreeShell
