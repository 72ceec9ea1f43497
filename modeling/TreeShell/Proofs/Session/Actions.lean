import TreeShell.Proofs.Session.Effects

/-!
# Actions within their effects

An action stays within some effects if all it does is a run of these, from whatever job it starts
and whether it fails or not; and what it returns, if it does, is one of some values. Every way to
put actions together stays within the effects of its parts.
-/

namespace TreeShell.Action

variable {α β : Type}

/-! ## What an action comes to -/

/-- What an action comes to from a job: what it returns or why it fails, and the job then. -/
def result (action : Action α) (j : Job) : Except Fault α × Job := action.run.run j

theorem result_pure (a : α) (j : Job) : result (pure a) j = (.ok a, j) := rfl

theorem result_throw (fault : Fault) (j : Job) :
    result (throw fault : Action α) j = (.error fault, j) :=
  rfl

/-- After a failure nothing more is done. -/
theorem result_bind (action : Action α) (next : α → Action β) (j : Job) :
    result (action >>= next) j =
      match result action j with
      | (.ok a, j') => result (next a) j'
      | (.error fault, j') => (.error fault, j') := by
  rw [result, ExceptT.run_bind, StateT.run_bind]
  cases h : result action j with
  | mk outcome j' =>
    rw [result] at h
    rw [h]
    cases outcome with
    | ok a => rfl
    | error fault => rfl

/-- What was done before a failure stays done when that is handled. -/
theorem result_tryCatch (action : Action α) (handler : Fault → Action α) (j : Job) :
    result (tryCatch action handler) j =
      match result action j with
      | (.ok a, j') => (.ok a, j')
      | (.error fault, j') => result (handler fault) j' := by
  have hrun : (tryCatch action handler).run.run j =
      (ExceptT.tryCatch action handler).run.run j := rfl
  rw [result, hrun]
  cases h : result action j with
  | mk outcome j' =>
    rw [result] at h
    change StateT.run (action.run >>= _) j = _
    rw [StateT.run_bind, h]
    cases outcome with
    | ok a => rfl
    | error fault => rfl

theorem result_session (j : Job) : result session j = (.ok j.session, j) := rfl

/-- A change leaves the session changed and nothing else. -/
theorem result_change (f : Session → Session) (j : Job) :
    result (change f) j = (.ok (), j.mapSession f) :=
  rfl

/-- A refusal by the tree fails the action. -/
theorem result_allow (f : Job → Except PathError α × Job) (j : Job) :
    result (allow f) j =
      match f j with
      | (.ok a, j') => (.ok a, j')
      | (.error e, j') => (.error (.ofPathError e), j') := by
  have hget : result (get : Action Job) j = (.ok j, j) := rfl
  rw [allow, result_bind, hget]
  dsimp only
  cases f j with
  | mk outcome j' =>
    cases outcome with
    | ok a => rfl
    | error e => rfl

/-- A question changes nothing. -/
theorem result_ask (f : Tree → Except PathError α) (j : Job) :
    result (ask f) j =
      match f j.session.volume.tree with
      | .ok a => (.ok a, j)
      | .error e => (.error (.ofPathError e), j) := by
  rw [ask, result_bind, result_session]
  dsimp only
  cases f j.session.volume.tree with
  | ok a => rfl
  | error e => rfl

/-- A refusal by the tree is an answer of the attempt; other failures go on. -/
theorem result_attempt (action : Action α) (j : Job) :
    result (attempt action) j =
      match result action j with
      | (.ok a, j') => (.ok (.ok a), j')
      | (.error (.path e), j') => (.ok (.error e), j')
      | (.error fault, j') => (.error fault, j') := by
  rw [attempt, result_tryCatch, result_bind]
  cases result action j with
  | mk outcome j' =>
    cases outcome with
    | ok a => rfl
    | error fault => cases fault <;> rfl

/-! ## Actions that stay within effects -/

/-- An action stays within some effects, and returns nothing but some values. -/
def Within (allowed : Effect → Prop) (returns : α → Prop) (action : Action α) : Prop :=
  ∀ j, Steps allowed j (result action j).2 ∧ ∀ a, (result action j).1 = .ok a → returns a

variable {allowed : Effect → Prop} {returns : α → Prop} {returns' : β → Prop}

namespace Within

/-- A value needs nothing to be allowed. -/
theorem pure {a : α} (h : returns a) : Within allowed returns (pure a) := by
  intro j
  rw [result_pure]
  refine ⟨.refl j, fun b hb => ?_⟩
  cases hb
  exact h

/-- A fault needs nothing to be allowed. -/
theorem throw (fault : Fault) : Within allowed returns (throw fault : Action α) := by
  intro j
  rw [result_throw]
  exact ⟨.refl j, fun a ha => by cases ha⟩

/-- What both parts may do and return, the whole may. -/
theorem bind {action : Action α} {next : α → Action β} (h : Within allowed returns action)
    (hnext : ∀ a, returns a → Within allowed returns' (next a)) :
    Within allowed returns' (action >>= next) := by
  intro j
  obtain ⟨hsteps, hreturns⟩ := h j
  rw [result_bind]
  generalize result action j = first at hsteps hreturns
  obtain ⟨outcome, j'⟩ := first
  cases outcome with
  | error fault => exact ⟨hsteps, fun a ha => by cases ha⟩
  | ok a =>
    obtain ⟨hsteps', hreturns'⟩ := hnext a (hreturns a rfl) j'
    exact ⟨hsteps.trans hsteps', hreturns'⟩

/-- An action that returns one kind of things returns a wider kind. -/
theorem weaken {action : Action α} {returns'' : α → Prop} (h : Within allowed returns action)
    (hle : ∀ a, returns a → returns'' a) : Within allowed returns'' action :=
  fun j => ⟨(h j).1, fun a ha => hle a ((h j).2 a ha)⟩

/-- After an action whose value does not matter. -/
theorem andThen {action : Action α} {next : α → Action β}
    (h : Within allowed (fun _ => True) action) (hnext : ∀ a, Within allowed returns' (next a)) :
    Within allowed returns' (action >>= next) :=
  h.bind fun a _ => hnext a

/-- A look at the session needs nothing to be allowed. -/
theorem session : Within allowed (fun _ => True) session := by
  intro j
  rw [result_session]
  exact ⟨.refl j, fun _ _ => trivial⟩

/-- A question to the tree needs nothing to be allowed. -/
theorem ask (f : Tree → Except PathError α) : Within allowed (fun _ => True) (ask f) := by
  refine session.andThen fun s => ?_
  split
  · exact .pure trivial
  · exact .throw _

/-- What is needed of a content needs nothing to be allowed. -/
theorem need (text : Except ContentError String) : Within allowed (fun _ => True) (need text) := by
  unfold Action.need
  split
  · exact .pure trivial
  · exact .throw _

/-- An outcome needs nothing to be allowed. -/
theorem lift (outcome : Except Fault α) :
    Within allowed (fun _ => True) (liftM outcome : Action α) := by
  cases outcome with
  | ok a => exact .pure trivial
  | error fault => exact .throw fault

/-- An action that changes the session as an effect does. -/
theorem change {f : Session → Session} {e : Effect} (h : allowed e)
    (hf : ∀ j, e.apply j = j.mapSession f) : Within allowed (fun _ => True) (change f) := by
  intro j
  rw [result_change, ← hf]
  exact ⟨.single h j, fun _ _ => trivial⟩

/-- From one job: to change the session in a number of steps, and go on. -/
theorem from_change {f : Session → Session} {next : Action α} {j : Job}
    (hsteps : Steps allowed j (j.mapSession f)) (hnext : Within allowed returns next) :
    Steps allowed j (result (Action.change f >>= fun _ => next) j).2 ∧
      ∀ a, (result (Action.change f >>= fun _ => next) j).1 = .ok a → returns a := by
  rw [result_bind, result_change]
  obtain ⟨hsteps', hreturns⟩ := hnext (j.mapSession f)
  exact ⟨hsteps.trans hsteps', hreturns⟩

/-- An action that looks at the session first. -/
theorem atSession {next : Session → Action α}
    (h : ∀ j, Steps allowed j (result (next j.session) j).2 ∧
      ∀ a, (result (next j.session) j).1 = .ok a → returns a) :
    Within allowed returns (Action.session >>= next) := by
  intro j
  rw [result_bind, result_session]
  exact h j

/-- An action that does an effect, whether it is refused or not. -/
theorem allow {f : Job → Except PathError α × Job} {e : Effect} (h : allowed e)
    (hf : ∀ j, e.apply j = (f j).2) : Within allowed (fun _ => True) (allow f) := by
  intro j
  have hstep := Steps.single h j
  rw [hf] at hstep
  rw [result_allow]
  generalize f j = outcome at hstep
  obtain ⟨outcome, j'⟩ := outcome
  cases outcome with
  | ok a => exact ⟨hstep, fun _ _ => trivial⟩
  | error e => exact ⟨hstep, fun _ _ => trivial⟩

/-- To write is one effect, and so are to read and to edit. -/
theorem write {stream : Nat} {text : String} (h : allowed (.write stream text)) :
    Within allowed (fun _ => True) (write stream text) :=
  allow h fun _ => rfl

/-- To read a stream needs just that to be allowed. -/
theorem read {stream : Nat} (h : allowed (.read stream)) :
    Within allowed (fun _ => True) (read stream) :=
  allow h fun _ => rfl

/-- To edit the tree needs just that to be allowed. -/
theorem edit {cwd : String} {e : Edit} (h : allowed (.edit cwd e)) :
    Within allowed (fun _ => True) (edit cwd e) :=
  allow h fun _ => rfl

/-- An attempt does what is attempted. -/
theorem attempt {action : Action α} (h : Within allowed returns action) :
    Within allowed (fun r => ∀ a, r = .ok a → returns a) (attempt action) := by
  intro j
  obtain ⟨hsteps, hreturns⟩ := h j
  rw [result_attempt]
  generalize result action j = first at hsteps hreturns
  obtain ⟨outcome, j'⟩ := first
  cases outcome with
  | ok a =>
    refine ⟨hsteps, fun r hr b hb => ?_⟩
    cases hr
    cases hb
    exact hreturns a rfl
  | error fault =>
    cases fault with
    | path e =>
      refine ⟨hsteps, fun r hr b hb => ?_⟩
      cases hr
      cases hb
    | _ => exact ⟨hsteps, fun r hr => by cases hr⟩

/-- What is done for each of some things, one after another. -/
theorem forIn {l : List α} {body : α → PUnit → Action (ForInStep PUnit)}
    (h : ∀ a ∈ l, Within allowed (fun _ => True) (body a ⟨⟩)) :
    Within allowed (fun _ => True) (forIn l PUnit.unit body) := by
  induction l with
  | nil => exact .pure trivial
  | cons a l ih =>
    rw [List.forIn_cons]
    refine (h a List.mem_cons_self).andThen fun step => ?_
    cases step with
    | done _ => exact .pure trivial
    | yield _ => exact ih fun b hb => h b (List.mem_cons_of_mem a hb)

/-- To do something for each of some things ends in success or in failure. -/
theorem each {action : α → Action Bool} {l : List α}
    (h : ∀ a ∈ l, Within allowed (fun _ => True) (action a)) :
    Within allowed (fun code => code = success ∨ code = failure) (each action l) := by
  induction l with
  | nil => exact .pure (Or.inl rfl)
  | cons a l ih =>
    refine (h a List.mem_cons_self).andThen fun done => ?_
    refine (ih fun b hb => h b (List.mem_cons_of_mem a hb)).bind fun code hcode => .pure ?_
    cases done with
    | true => exact hcode
    | false => exact Or.inr rfl

end Within

end TreeShell.Action
