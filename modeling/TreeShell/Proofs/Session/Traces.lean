import TreeShell.Proofs.Session.Frames

/-!
# What effects leave in a stream

A run of effects told as a list. Of a stream that keeps what it gets, and that no other stream of
the run leads to, what it kept at first and all that was written to it is what was read from it and
what it keeps in the end, in that order.
-/

namespace TreeShell

namespace Effect

/-- The job after effects, one after another. -/
def applyAll : List Effect → Job → Job
  | [], j => j
  | e :: es, j => applyAll es (e.apply j)

/-- What an effect writes to a stream. -/
def textTo (n : Nat) : Effect → String
  | .write stream text => if stream = n then text else ""
  | _ => ""

/-- What an effect reads from a stream. -/
def textFrom (n : Nat) (j : Job) : Effect → String
  | .read stream => if stream = n then j.pool.heard (.keeper n) else ""
  | _ => ""

/-- All that effects write to a stream, in order. -/
def written (n : Nat) : List Effect → String
  | [] => ""
  | e :: es => e.textTo n ++ written n es

/-- All that effects read from a stream, in order. -/
def readBack (n : Nat) : List Effect → Job → String
  | [], _ => ""
  | e :: es, j => e.textFrom n j ++ readBack n es (e.apply j)

/-- Nothing is read from a stream by effects that do not read it. -/
theorem readBack_eq_empty {n : Nat} {es : List Effect} (h : ∀ e ∈ es, e ≠ .read n) (j : Job) :
    readBack n es j = "" := by
  induction es generalizing j with
  | nil => rfl
  | cons e es ih =>
    have hrest := ih (fun e' he' => h e' (List.mem_cons_of_mem _ he')) (e.apply j)
    have hfirst : e.textFrom n j = "" := by
      cases e with
      | read stream =>
        have hne : stream ≠ n := fun he => h _ List.mem_cons_self (by rw [he])
        exact if_neg hne
      | _ => rfl
    rw [readBack, hfirst, hrest, String.empty_append]

end Effect

open Effect

/-- What is done step by step is done by a list of effects. -/
theorem Steps.exists_trace {allowed : Effect → Prop} {j j' : Job} (h : Steps allowed j j') :
    ∃ es, (∀ e ∈ es, allowed e) ∧ applyAll es j = j' := by
  refine Relation.ReflTransGen.head_induction_on h ?_ ?_
  · exact ⟨[], fun e he => (by cases he), rfl⟩
  · rintro j₀ j₁ ⟨e, he, rfl⟩ _ ⟨es, hes, hlast⟩
    exact ⟨e :: es, List.forall_mem_cons.mpr ⟨he, hes⟩, hlast⟩

namespace Pool

variable {p q : Pool} {n m : Nat}

/-- A stream keeps what it gets. -/
def Keeps (p : Pool) (n : Nat) : Prop := ∃ s, p.streams[n]? = some s ∧ s.destination = .kept

/-- A stream is another or leads elsewhere. -/
def SameOrApart (p : Pool) (n m : Nat) : Prop :=
  m = n ∨ p.endOf m ≠ .nowhere ∧ p.endOf m ≠ .keeper n

/-- A stream that keeps goes on doing so while the pool grows. -/
theorem GrowsTo.keeps (h : p.GrowsTo q) (hn : p.Keeps n) : q.Keeps n := by
  obtain ⟨s, hs, hd⟩ := hn
  obtain ⟨s', hs', hd'⟩ := h.streams n s hs
  exact ⟨s', hs', hd'.trans hd⟩

/-- Streams that are the same or apart stay so while the pool grows. -/
theorem GrowsTo.sameOrApart (h : p.GrowsTo q) (hm : p.SameOrApart n m) : q.SameOrApart n m := by
  rcases hm with hm | ⟨hend, hne⟩
  · exact Or.inl hm
  · rw [SameOrApart, h.endOf_eq hend]
    exact Or.inr ⟨hend, hne⟩

/-- A stream that keeps ends at itself. -/
theorem Keeps.endOf_eq (h : p.Keeps n) : p.endOf n = .keeper n := by
  obtain ⟨s, hs, hd⟩ := h
  exact (endOf_of_stream hs).1 hd

/-- A stream that keeps takes what is written to it. -/
theorem Keeps.takes (h : p.Keeps n) : p.Takes (.keeper n) := by
  obtain ⟨s, hs, -⟩ := h
  exact (List.getElem?_eq_some_iff.mp hs).1

/-- A new stream leaves what another one has kept. -/
theorem heard_append (hn : p.Keeps n) (s : Stream) :
    heard { p with streams := p.streams ++ [s] } (.keeper n) = p.heard (.keeper n) := by
  rw [heard, List.getElem?_append_left hn.takes, heard]

/-- What is written elsewhere is not heard. -/
theorem heard_write_of_ne {text : String} (h : p.endOf m ≠ .keeper n) :
    (p.write m text).heard (.keeper n) = p.heard (.keeper n) := by
  rw [write]
  cases he : p.endOf m with
  | keeper k =>
    have hne : k ≠ n := fun hk => h (by rw [he, hk])
    simp only [heard, keep, List.getElem?_modify_ne _ _ hne]
  | _ => rfl

/-- To read a stream gives what it has kept. -/
theorem read_eq_heard (p : Pool) (n : Nat) : (p.read n).1 = p.heard (.keeper n) := by
  rw [read, heard]
  cases p.streams[n]? with
  | none => rfl
  | some s => rfl

/-- Nothing is left of what was read. -/
theorem heard_read (p : Pool) (n m : Nat) :
    (p.read m).2.heard (.keeper n) = if m = n then "" else p.heard (.keeper n) := by
  rw [read, heard]
  split
  · next hm =>
    split
    · next he => rw [← he, hm]; rfl
    · rfl
  · next s hm =>
    rw [List.getElem?_modify]
    split
    · next he => rw [← he, hm]; rfl
    · rw [heard]
      simp

end Pool

open Pool

variable {j : Job} {n : Nat}

namespace Effect

/-- An effect that neither writes nor reads leaves what streams keep. -/
theorem heard_apply_of_ne (hn : j.pool.Keeps n) {e : Effect} (hw : ∀ m text, e ≠ .write m text)
    (hr : ∀ m, e ≠ .read m) : (e.apply j).pool.heard (.keeper n) = j.pool.heard (.keeper n) := by
  cases e with
  | write m text => exact absurd rfl (hw m text)
  | read m => exact absurd rfl (hr m)
  | openKeeping text => exact heard_append hn _
  | openFile path cwd => exact heard_append hn _
  | copy cwd source path =>
    rw [apply]
    split
    · rw [Job.pool_edit]
    · rfl
  | edit cwd e => rw [apply, Job.pool_edit]
  | enter | assign | setAlias | removeAlias | clear => rw [apply, Job.pool_mapSession]
  | note level source message => rfl

/-- A write to a stream, or to one apart from it, adds to what it has kept just if it is the
same. -/
theorem heard_apply_write (hn : j.pool.Keeps n) {m : Nat} (hm : j.pool.SameOrApart n m)
    (text : String) :
    ((Effect.write m text).apply j).pool.heard (.keeper n) =
      j.pool.heard (.keeper n) ++ if m = n then text else "" := by
  rw [apply]
  rcases hm with rfl | ⟨-, hne⟩
  · have hend := hn.endOf_eq
    have htakes : j.pool.Takes (j.pool.endOf m) := hend ▸ hn.takes
    have hfile : ∀ path cwd, j.pool.endOf m ≠ .file path cwd := by
      rw [hend]
      exact fun _ _ => End.noConfusion
    rw [Job.write_of_not_file hfile, if_pos rfl, ← hend]
    exact heard_write htakes
  · have hm : m ≠ n := fun he => hne (he ▸ hn.endOf_eq)
    rw [if_neg hm, String.append_empty]
    by_cases hfile : ∃ path cwd, j.pool.endOf m = .file path cwd
    · obtain ⟨path, cwd, hend⟩ := hfile
      rw [Job.write_of_file hend, Job.pool_edit]
    · rw [Job.write_of_not_file fun path cwd hend => hfile ⟨path, cwd, hend⟩]
      exact heard_write_of_ne hne

/-- What one effect reads from a stream, and what the stream keeps then, is what it kept and what
the effect writes to it. -/
theorem heard_apply (hn : j.pool.Keeps n) {e : Effect}
    (he : ∀ m text, e = .write m text → j.pool.SameOrApart n m) :
    e.textFrom n j ++ (e.apply j).pool.heard (.keeper n) =
      j.pool.heard (.keeper n) ++ e.textTo n := by
  by_cases hw : ∃ m text, e = .write m text
  · obtain ⟨m, text, rfl⟩ := hw
    have hfrom : (Effect.write m text).textFrom n j = "" := rfl
    rw [heard_apply_write hn (he m text rfl), hfrom, String.empty_append, textTo]
  · by_cases hr : ∃ m, e = .read m
    · obtain ⟨m, rfl⟩ := hr
      have hto : (Effect.read m).textTo n = "" := rfl
      rw [hto, String.append_empty, apply, Job.read, heard_read, textFrom]
      split
      · rw [String.append_empty]
      · rw [String.empty_append]
    · have hto : e.textTo n = "" := by
        unfold textTo
        split
        · next m text => exact absurd ⟨m, text, rfl⟩ hw
        · rfl
      have hfrom : e.textFrom n j = "" := by
        unfold textFrom
        split
        · next m => exact absurd ⟨m, rfl⟩ hr
        · rfl
      rw [hto, hfrom, String.empty_append, String.append_empty]
      exact heard_apply_of_ne hn (fun m text h => hw ⟨m, text, h⟩) fun m h => hr ⟨m, h⟩

/-- What effects read from a stream, and what the stream keeps in the end, is what it kept at first
and what they write to it. -/
theorem heard_applyAll (hn : j.pool.Keeps n) {es : List Effect}
    (hes : ∀ m text, .write m text ∈ es → j.pool.SameOrApart n m) :
    readBack n es j ++ (applyAll es j).pool.heard (.keeper n) =
      j.pool.heard (.keeper n) ++ written n es := by
  induction es generalizing j with
  | nil => rw [readBack, written, applyAll, String.empty_append, String.append_empty]
  | cons e es ih =>
    have hgrows := e.pool_apply j
    have hfirst := heard_apply hn (e := e) fun m text he => hes m text (he ▸ List.mem_cons_self)
    have hrest := ih (hgrows.keeps hn) fun m text hm =>
      hgrows.sameOrApart (hes m text (List.mem_cons_of_mem _ hm))
    rw [readBack, written, applyAll, String.append_assoc, hrest, ← String.append_assoc, hfirst,
      String.append_assoc]

end Effect

end TreeShell
