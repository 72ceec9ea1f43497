import TreeShell.Proofs.Session.Frames
import TreeShell.Proofs.Volume.Keeping

/-!
# Operands, one after another

What is done for each of some operands is done for all of them, whether it could be done for the
ones before or not, and it fails in the end just if it could not be done for one of them in its
turn. What the tree refuses is reported, and the operand counts as one for which it could not be
done.
-/

namespace TreeShell.Action

variable {α : Type} {j j' : Job} {ctx : Context}

/-! ## Reports and refusals -/

/-- An edit in an action is that of the volume. -/
theorem result_edit (cwd : String) (e : Edit) (j : Job) :
    result (edit cwd e) j =
      (match (j.session.volume.perform cwd e).1 with
        | .ok a => .ok a
        | .error refusal => .error (.ofPathError refusal), j.edit cwd e) := by
  rw [edit, result_allow]
  dsimp only
  split <;> next h =>
    rw [Prod.mk.injEq] at h
    rw [h.1, ← h.2]
    rfl

/-- A text that is taken at the end of a stream is written there. -/
theorem result_write_of_takes {stream : Nat} (h : j.pool.Takes (j.pool.endOf stream))
    (text : String) :
    result (write stream text) j = (.ok (), { j with pool := j.pool.write stream text }) := by
  rw [write, result_allow, Job.write_of_not_file h.ne_file]

/-- A line that the error output takes is reported. -/
theorem result_complain (h : j.pool.Takes (j.pool.endOf ctx.ends.errors)) (line : String) :
    result (complain ctx line) j =
      (.ok (), { j with pool := j.pool.write ctx.ends.errors (line ++ "\n") }) :=
  result_write_of_takes h _

/-- A text that the output takes is printed. -/
theorem result_put (h : j.pool.Takes (j.pool.endOf ctx.ends.output)) (text : String) :
    result (put ctx text) j =
      (.ok (), { j with pool := j.pool.write ctx.ends.output text }) :=
  result_write_of_takes h _

/-- What can be done counts as done, what the tree refuses is reported, and other failures are
kept. -/
theorem result_orComplain (ctx : Context) (words : PathError → String) (action : Action Unit)
    (j : Job) : result (orComplain ctx words action) j =
      match result action j with
      | (.ok _, j') => (.ok true, j')
      | (.error (.path e), j') => result (do complain ctx (words e); return false) j'
      | (.error fault, j') => (.error fault, j') := by
  rw [orComplain, result_bind, result_attempt]
  generalize result action j = outcome
  obtain ⟨fault | a, j'⟩ := outcome
  · cases fault <;> rfl
  · rfl

/-- What is reported does not count as done. -/
theorem result_complain_ne_true (line : String) (j : Job) :
    (result (do complain ctx line; return false) j).1 ≠ .ok true := by
  rw [result_bind]
  generalize result (complain ctx line) j = outcome
  obtain ⟨fault | a, j'⟩ := outcome
  · exact fun he => nomatch he
  · exact fun he => nomatch he

/-! ## One after another -/

/-- One thing alone tells whether all succeed. -/
theorem result_each_singleton (f : α → Action Bool) (a : α) (j : Job) :
    result (each f [a]) j =
      match result (f a) j with
      | (.ok done, j') => (.ok (if done then success else failure), j')
      | (.error fault, j') => (.error fault, j') := by
  rw [each, result_bind]
  generalize result (f a) j = outcome
  obtain ⟨fault | done, j'⟩ := outcome
  · rfl
  · rfl

/-- The job after something was done for each of some things. -/
def through (f : α → Action Bool) (l : List α) (j : Job) : Job :=
  l.foldl (fun j a => (result (f a) j).2) j

/-- Things of two lists are gone through one list after the other. -/
theorem through_append (f : α → Action Bool) (l l' : List α) (j : Job) :
    through f (l ++ l') j = through f l' (through f l j) :=
  List.foldl_append

/-- Something fails for one of some things in its turn. -/
def FailsInTurn (f : α → Action Bool) (l : List α) (j : Job) : Prop :=
  ∃ before a after, l = before ++ a :: after ∧ (result (f a) (through f before j)).1 = .ok false

variable {f : α → Action Bool}

/-- Something fails if the first thing does or one of the others in its turn. -/
theorem failsInTurn_cons_iff {a : α} {l : List α} : FailsInTurn f (a :: l) j ↔
    (result (f a) j).1 = .ok false ∨ FailsInTurn f l (result (f a) j).2 := by
  constructor
  · rintro ⟨before, b, after, hl, hb⟩
    cases before with
    | nil =>
      obtain ⟨rfl, -⟩ := List.cons.inj hl
      exact .inl hb
    | cons c before =>
      obtain ⟨rfl, hrest⟩ := List.cons.inj hl
      exact .inr ⟨before, b, after, hrest, hb⟩
  · rintro (ha | ⟨before, b, after, rfl, hb⟩)
    · exact ⟨[], a, l, rfl, ha⟩
    · exact ⟨a :: before, b, after, rfl, hb⟩

/-- What keeps to some jobs, and says of each thing in turn whether it was done, comes to an end for
all things. It fails just if it failed for one of them. -/
theorem result_each {P : Job → Prop}
    (hstep : ∀ a j, P j → (∃ done, (result (f a) j).1 = .ok done) ∧ P (result (f a) j).2)
    (h : P j) (l : List α) :
    P (through f l j) ∧ ∃ code, result (each f l) j = (.ok code, through f l j) ∧
      (code = failure ↔ FailsInTurn f l j) := by
  induction l generalizing j with
  | nil =>
    refine ⟨h, success, rfl, iff_of_false (by decide) ?_⟩
    rintro ⟨before, a, after, hl, -⟩
    cases before <;> cases hl
  | cons a l ih =>
    obtain ⟨⟨done, hdone⟩, hnext⟩ := hstep a j h
    obtain ⟨hrest, code, hcode, hiff⟩ := ih hnext
    refine ⟨hrest, if done then code else failure, ?_, ?_⟩
    · have ha : result (f a) j = (.ok done, (result (f a) j).2) := Prod.ext hdone rfl
      rw [each, result_bind, ha]
      dsimp only
      rw [result_bind, hcode]
      rfl
    · rw [failsInTurn_cons_iff, hdone, Except.ok.injEq]
      cases done with
      | true => simpa using hiff
      | false => simp

/-! ## Jobs to try things on -/

/-- A job on a volume, with one stream, which keeps what is written to it. -/
def jobOn (volume : Volume) : Job :=
  { session := { (default : Session) with volume }, pool := (Pool.empty.addKeeping "").1 }

/-- What a command is given that has some operands and a working directory, and writes to the first
stream. -/
def given (operands : List String) (cwd : String) : Context :=
  { (default : Context) with cwd, arguments := operands }

end TreeShell.Action
