import TreeShell.Proofs.Session.Streams

/-!
# Streams with and without a pipe

The same stage can write to a pipe, where others follow it, or to the output of the line, where none
does. The pools of the two runs are then joined: they have the same streams but for the pipe, whose
place is taken by the output, so that later streams have other numbers; and but for the end where
the output leads, the same is heard in both. What is done to streams that go with one another keeps
the pools joined, as long as nothing is read back from a pipe that is not empty.
-/

namespace TreeShell

/-! ## One pool -/

namespace Pool

variable {p q : Pool} {n m : Nat} {text : String}

/-- Only a stream that keeps texts is where a chain ends. -/
theorem keeps_of_route {fuel : Nat} (h : p.route fuel n = .keeper m) : p.Keeps m := by
  induction fuel generalizing n with
  | zero => cases h
  | succ fuel ih =>
    rw [route] at h
    cases hs : p.streams[n]? with
    | none =>
      rw [hs] at h
      cases h
    | some s =>
      rw [hs] at h
      dsimp only at h
      cases hd : s.destination with
      | kept =>
        rw [hd] at h
        cases h
        exact ⟨s, hs, hd⟩
      | stream k =>
        rw [hd] at h
        exact ih h
      | _ =>
        rw [hd] at h
        cases h

/-- What something ends at keeps what it gets. -/
theorem keeps_of_endOf (h : p.endOf n = .keeper m) : p.Keeps m := keeps_of_route h

/-- Nothing has been kept under a number that is not yet given. -/
theorem heard_of_next_le (h : p.next ≤ n) : p.heard (.keeper n) = "" := by
  rw [heard, List.getElem?_eq_none h]
  rfl

/-- A stream that hands on what it gets, and has kept nothing. -/
def Hollow (p : Pool) (n : Nat) : Prop :=
  ∃ s, p.streams[n]? = some s ∧ s.destination ≠ .kept ∧ s.kept = ""

/-- A hollow stream keeps nothing. -/
theorem Hollow.not_keeps (h : p.Hollow n) : ¬ p.Keeps n := by
  obtain ⟨s, hs, hd, -⟩ := h
  rintro ⟨s', hs', hd'⟩
  rw [hs] at hs'
  cases hs'
  exact hd hd'

/-- Nothing ends at a hollow stream. -/
theorem Hollow.endOf_ne (h : p.Hollow n) (m : Nat) : p.endOf m ≠ .keeper n := fun he =>
  h.not_keeps (keeps_of_endOf he)

/-- A hollow stream is one of the pool. -/
theorem Hollow.lt_next (h : p.Hollow n) : n < p.next := by
  obtain ⟨s, hs, -⟩ := h
  exact (List.getElem?_eq_some_iff.mp hs).1

/-- A hollow stream has kept nothing. -/
theorem Hollow.heard_eq (h : p.Hollow n) : p.heard (.keeper n) = "" := by
  obtain ⟨s, hs, -, hk⟩ := h
  rw [heard, hs]
  exact hk

/-- A stream stays hollow as long as nothing is heard there. -/
theorem Hollow.of_heard (h : p.Hollow n) (hgrows : p.GrowsTo q)
    (hheard : q.heard (.keeper n) = "") : q.Hollow n := by
  obtain ⟨s, hs, hd, -⟩ := h
  obtain ⟨s', hs', hd'⟩ := hgrows.streams n s hs
  refine ⟨s', hs', hd' ▸ hd, ?_⟩
  rw [heard, hs'] at hheard
  exact hheard

/-- What is written to a chain is heard at no other end. -/
theorem heard_write_elsewhere {e : End} (h : p.endOf n ≠ e) :
    (p.write n text).heard e = p.heard e := by
  cases e with
  | keeper k => exact heard_write_of_ne h
  | sink k =>
    rw [write]
    cases hend : p.endOf n with
    | sink m =>
      have hne : m ≠ k := fun hk => h (by rw [hend, hk])
      simp only [heard, deliver, List.getElem?_modify_ne _ _ hne]
    | _ => rfl
  | file path cwd => rfl
  | nowhere => rfl

/-- What is written to a chain is heard at its end, and nowhere else. -/
theorem heard_write_eq (h : p.Takes (p.endOf n)) (e : End) :
    (p.write n text).heard e = p.heard e ++ if p.endOf n = e then text else "" := by
  split
  · next he =>
    subst he
    exact heard_write h
  · next he => rw [heard_write_elsewhere he, String.append_empty]

/-- What is read is heard no more, and all else is. -/
theorem heard_read_eq (p : Pool) (n : Nat) (e : End) :
    (p.read n).2.heard e = if e = .keeper n then "" else p.heard e := by
  cases e with
  | keeper m =>
    rw [heard_read]
    simp only [End.keeper.injEq, eq_comm]
  | sink m =>
    rw [read]
    split <;> simp [heard]
  | _ => simp [heard]

/-- A stream that is opened is heard with what it keeps, and all else is heard as before. -/
theorem heard_append_eq (p : Pool) (s : Stream) (e : End) :
    heard { p with streams := p.streams ++ [s] } e =
      if e = .keeper p.next then s.kept else p.heard e := by
  cases e with
  | keeper m =>
    simp only [End.keeper.injEq, heard]
    split
    · next he =>
      rw [he, getElem?_next]
      rfl
    · next he =>
      by_cases hm : m < p.next
      · rw [List.getElem?_append_left hm]
      · have hlt : p.next < m := by omega
        have hlong : (p.streams ++ [s]).length ≤ m := by
          rw [List.length_append]
          exact hlt
        rw [List.getElem?_eq_none hlong, List.getElem?_eq_none (Nat.le_of_not_lt hm)]
  | _ => simp [heard]

/-- A stream that is opened later makes no difference to it. -/
theorem Hollow.append (h : p.Hollow n) (s : Stream) :
    Hollow { p with streams := p.streams ++ [s] } n := by
  refine h.of_heard (p.growsTo_append s) ?_
  rw [heard_append_eq, if_neg fun he => Nat.ne_of_lt h.lt_next (End.keeper.inj he), h.heard_eq]

/-- A new stream to another one is hollow. -/
theorem hollow_add_stream (p : Pool) (n : Nat) : (p.add (.stream n)).1.Hollow p.next :=
  ⟨_, p.getElem?_next ⟨.stream n, ""⟩, Destination.noConfusion, rfl⟩

end Pool

open Pool

/-- What an effect does to the streams: nothing, or a text is written or read, or a stream is opened
that keeps a text or leads into a file. -/
theorem Effect.pool_cases (e : Effect) (j : Job) :
    (e.apply j).pool = j.pool ∨
      (∃ n text, e = .write n text ∧ (e.apply j).pool = j.pool.write n text) ∨
        (∃ n, e = .read n ∧ (e.apply j).pool = (j.pool.read n).2) ∨
          ∃ s : Stream, (s.destination = .kept ∨ ∃ path cwd, s.destination = .file path cwd) ∧
            (e.apply j).pool = { j.pool with streams := j.pool.streams ++ [s] } := by
  cases e with
  | write stream text =>
    cases hend : j.pool.endOf stream with
    | file path cwd =>
      refine Or.inl ?_
      rw [apply, Job.write_of_file hend, Job.pool_edit]
    | _ =>
      refine Or.inr (Or.inl ⟨stream, text, rfl, ?_⟩)
      rw [apply, Job.write_of_not_file fun path cwd => by
        rw [hend]
        exact End.noConfusion]
  | read stream => exact Or.inr (Or.inr (Or.inl ⟨stream, rfl, rfl⟩))
  | openKeeping text => exact Or.inr (Or.inr (Or.inr ⟨⟨.kept, text⟩, Or.inl rfl, rfl⟩))
  | openFile path cwd =>
    exact Or.inr (Or.inr (Or.inr ⟨⟨.file path cwd, ""⟩, Or.inr ⟨path, cwd, rfl⟩, rfl⟩))
  | copy cwd source path =>
    refine Or.inl ?_
    rw [apply]
    split
    · exact Job.pool_edit _ _ _
    · rfl
  | edit cwd e => exact Or.inl (Job.pool_edit _ _ _)
  | enter | assign | setAlias | removeAlias | clear =>
    refine Or.inl ?_
    rw [apply, Job.pool_mapSession]
  | note level source message => exact Or.inl rfl

/-- Whatever is done, a stream that hands on what it gets keeps nothing. -/
theorem Pool.Hollow.apply {j : Job} {n : Nat} (h : j.pool.Hollow n) (e : Effect) :
    (e.apply j).pool.Hollow n := by
  have hgrows := e.pool_apply j
  rcases e.pool_cases j with hsame | ⟨m, text, -, hpool⟩ | ⟨m, -, hpool⟩ | ⟨s, -, hpool⟩
  · rwa [hsame]
  · refine h.of_heard hgrows ?_
    rw [hpool, heard_write_of_ne (h.endOf_ne m), h.heard_eq]
  · refine h.of_heard hgrows ?_
    rw [hpool, heard_read_eq, h.heard_eq, ite_self]
  · rw [hpool]
    exact h.append s

/-! ## Two pools -/

/-- Where the streams of a stage are that writes to a pipe, and those of the same stage without it:
the output that takes the place of the pipe and leads to an outlet, and the stream that both report
to, which leads to an end that was there before. -/
structure Splice where
  output : Nat
  pipe : Nat
  errors : Nat
  outlet : End
  reports : End
  errors_lt : errors < pipe
  reports_old : ∀ n, reports = .keeper n → n < pipe

namespace Splice

variable (σ : Splice) {p q p' q' : Pool} {n m : Nat} {text : String}

/-- The stream without the pipe that goes with a stream. -/
def map (n : Nat) : Nat :=
  if n = σ.pipe then σ.output else if n < σ.pipe then n else n - 1

/-- The end without the pipe that goes with an end. -/
def endMap : End → End
  | .keeper n => .keeper (σ.map n)
  | e => e

/-- The pipe is mapped to the output. -/
theorem map_pipe : σ.map σ.pipe = σ.output := if_pos rfl

/-- The streams before the pipe keep their numbers. -/
theorem map_of_lt (h : n < σ.pipe) : σ.map n = n := by
  rw [map, if_neg (by omega), if_pos h]

/-- The streams behind the pipe move up by one. -/
theorem map_of_gt (h : σ.pipe < n) : σ.map n = n - 1 := by
  rw [map, if_neg (by omega), if_neg (by omega)]

/-- The errors keep their number. -/
theorem map_errors : σ.map σ.errors = σ.errors := σ.map_of_lt σ.errors_lt

/-- Different streams stay different, apart from the pipe. -/
theorem map_inj (hn : n ≠ σ.pipe) (hm : m ≠ σ.pipe) : σ.map n = σ.map m ↔ n = m := by
  unfold map
  split_ifs <;> omega

/-- Different ends stay different, apart from the pipe. -/
theorem endMap_inj {e e' : End} (he : e ≠ .keeper σ.pipe) (he' : e' ≠ .keeper σ.pipe) :
    σ.endMap e = σ.endMap e' ↔ e = e' := by
  cases e <;> cases e' <;> simp only [endMap, End.keeper.injEq, reduceCtorEq]
  next n m => exact σ.map_inj (fun h => he (by rw [h])) fun h => he' (by rw [h])

/-- Reports do not end at the pipe. -/
theorem reports_ne : σ.reports ≠ .keeper σ.pipe := fun h =>
  absurd (σ.reports_old _ h) (Nat.lt_irrefl _)

/-- Reports end where they did. -/
theorem endMap_reports : σ.endMap σ.reports = σ.reports := by
  cases h : σ.reports with
  | keeper n => rw [endMap, σ.map_of_lt (σ.reports_old n h)]
  | _ => rfl

/-- Two pools are the same but for the pipe, and for what is heard at the outlet. -/
structure Joins (σ : Splice) (p p' : Pool) : Prop where
  next : p.next = p'.next + 1
  pipe : p.Keeps σ.pipe
  output : p'.Hollow σ.output
  errors : p.Hollow σ.errors ∧ p'.Hollow σ.errors
  outlet : p'.endOf σ.output = σ.outlet ∧ p'.Takes σ.outlet
  reports : p.endOf σ.errors = σ.reports ∧ p.Takes σ.reports ∧
    p'.endOf σ.errors = σ.reports ∧ p'.Takes σ.reports
  heard : ∀ e, e ≠ .keeper σ.pipe → σ.endMap e ≠ σ.outlet → p.heard e = p'.heard (σ.endMap e)

/-- A stream that the stage may use: the pipe, the one for errors, one that keeps texts with the
pipe and without it, or one that leads into the same file. -/
inductive Port (σ : Splice) (p p' : Pool) : Nat → Prop where
  | pipe : Port σ p p' σ.pipe
  | errors : Port σ p p' σ.errors
  | kept {n : Nat} (hne : n ≠ σ.pipe) (hn : p.Keeps n) (hn' : p'.Keeps (σ.map n))
    (hout : End.keeper (σ.map n) ≠ σ.outlet) : Port σ p p' n
  | file {n : Nat} {path cwd : String} (hn : p.endOf n = .file path cwd)
    (hn' : p'.endOf (σ.map n) = .file path cwd) : Port σ p p' n

variable {σ}

/-- Streams that match go on matching while the pools grow. -/
theorem Port.mono (h : σ.Port p p' n) (hp : p.GrowsTo q) (hp' : p'.GrowsTo q') :
    σ.Port q q' n := by
  cases h with
  | pipe => exact .pipe
  | errors => exact .errors
  | kept hne hn hn' hout => exact .kept hne (hp.keeps hn) (hp'.keeps hn') hout
  | file hn hn' =>
    refine .file ((hp.endOf_eq ?_).trans hn) ((hp'.endOf_eq ?_).trans hn')
    · rw [hn]
      exact End.noConfusion
    · rw [hn']
      exact End.noConfusion

/-- A pool is joined with the one that has an empty pipe besides. -/
theorem joins_pipe (hpipe : σ.pipe = p.next) (houtput : p.Hollow σ.output)
    (herrors : p.Hollow σ.errors) (houtlet : p.endOf σ.output = σ.outlet ∧ p.Takes σ.outlet)
    (hreports : p.endOf σ.errors = σ.reports ∧ p.Takes σ.reports) :
    σ.Joins (p.addKeeping "").1 p := by
  have hgrows : p.GrowsTo (p.addKeeping "").1 := p.growsTo_addKeeping ""
  obtain ⟨hrep, hrtakes⟩ := hreports
  have hreports' : (p.addKeeping "").1.endOf σ.errors = σ.reports :=
    (hgrows.endOf_eq (hrep ▸ hrtakes.ne_nowhere)).trans hrep
  have hheard : ∀ e, (p.addKeeping "").1.heard e = p.heard e := fun e => by
    rw [Pool.addKeeping, heard_append_eq]
    split
    · next he =>
      rw [he, heard_of_next_le (Nat.le_refl p.next)]
    · rfl
  refine ⟨p.next_addKeeping "", ?_, houtput, ⟨?_, herrors⟩, houtlet,
    ⟨hreports', hgrows.takes hrtakes, hrep, hrtakes⟩, fun e he _ => ?_⟩
  · rw [hpipe]
    exact ⟨_, p.getElem?_next ⟨.kept, ""⟩, rfl⟩
  · exact herrors.of_heard hgrows (by rw [hheard, herrors.heard_eq])
  · rw [hheard]
    cases e with
    | keeper n =>
      rw [endMap]
      rcases Nat.lt_trichotomy n σ.pipe with hlt | heq | hgt
      · rw [σ.map_of_lt hlt]
      · exact absurd (congrArg End.keeper heq) he
      · -- neither stream is there
        rw [σ.map_of_gt hgt, heard_of_next_le (by omega), heard_of_next_le (by omega)]
    | _ => rfl

/-- Pools stay joined when they grow alike. -/
theorem Joins.grow (h : σ.Joins p p') (hp : p.GrowsTo q) (hp' : p'.GrowsTo q')
    (hnext : q.next = q'.next + 1) (houtput : q'.heard (.keeper σ.output) = "")
    (herrors : q.heard (.keeper σ.errors) = "") (herrors' : q'.heard (.keeper σ.errors) = "")
    (hheard : ∀ e, e ≠ .keeper σ.pipe → σ.endMap e ≠ σ.outlet →
      q.heard e = q'.heard (σ.endMap e)) : σ.Joins q q' := by
  obtain ⟨hout, htakes⟩ := h.outlet
  obtain ⟨hrep, hrtakes, hrep', hrtakes'⟩ := h.reports
  exact ⟨hnext, hp.keeps h.pipe, h.output.of_heard hp' houtput,
    ⟨h.errors.1.of_heard hp herrors, h.errors.2.of_heard hp' herrors'⟩,
    ⟨(hp'.endOf_eq (hout ▸ htakes.ne_nowhere)).trans hout, hp'.takes htakes⟩,
    ⟨(hp.endOf_eq (hrep ▸ hrtakes.ne_nowhere)).trans hrep, hp.takes hrtakes,
      (hp'.endOf_eq (hrep' ▸ hrtakes'.ne_nowhere)).trans hrep', hp'.takes hrtakes'⟩, hheard⟩

/-- The ends of a port: in both pools in the same file, or in neither in one. -/
theorem Joins.endOf_port (h : σ.Joins p p') (hn : σ.Port p p' n) :
    (∃ path cwd, p.endOf n = .file path cwd ∧ p'.endOf (σ.map n) = .file path cwd) ∨
      p.Takes (p.endOf n) ∧ p'.Takes (p'.endOf (σ.map n)) ∧
        ∀ e, e ≠ .keeper σ.pipe → σ.endMap e ≠ σ.outlet →
          (p.endOf n = e ↔ p'.endOf (σ.map n) = σ.endMap e) := by
  cases hn with
  | pipe =>
    obtain ⟨hout, htakes⟩ := h.outlet
    refine Or.inr ⟨h.pipe.takes_endOf, ?_, fun e he hne => ?_⟩
    · rw [σ.map_pipe, hout]
      exact htakes
    · rw [σ.map_pipe, hout, h.pipe.endOf_eq]
      exact iff_of_false he.symm hne.symm
  | errors =>
    obtain ⟨hrep, hrtakes, hrep', hrtakes'⟩ := h.reports
    rw [σ.map_errors, hrep, hrep']
    refine Or.inr ⟨hrtakes, hrtakes', fun e he _ => ?_⟩
    rw [← σ.endMap_inj σ.reports_ne he, σ.endMap_reports]
  | kept hne hn hn' hout =>
    rw [hn.endOf_eq, hn'.endOf_eq]
    refine Or.inr ⟨hn.takes, hn'.takes, fun e he _ => ?_⟩
    rw [← σ.endMap_inj (fun he => hne (End.keeper.inj he)) he, endMap]
  | file hn hn' => exact Or.inl ⟨_, _, hn, hn'⟩

/-- A text that is written to a port keeps the pools joined, if the port leads into no file. -/
theorem Joins.write (h : σ.Joins p p') (hn : p.Takes (p.endOf n))
    (hn' : p'.Takes (p'.endOf (σ.map n)))
    (hends : ∀ e, e ≠ .keeper σ.pipe → σ.endMap e ≠ σ.outlet →
      (p.endOf n = e ↔ p'.endOf (σ.map n) = σ.endMap e)) (text : String) :
    σ.Joins (p.write n text) (p'.write (σ.map n) text) := by
  refine h.grow (p.growsTo_write n text) (p'.growsTo_write _ text) ?_ ?_ ?_ ?_ fun e he hne => ?_
  · rw [next_write, next_write, h.next]
  · rw [heard_write_eq hn', if_neg (h.output.endOf_ne _), h.output.heard_eq]
    rfl
  · rw [heard_write_eq hn, if_neg (h.errors.1.endOf_ne _), h.errors.1.heard_eq]
    rfl
  · rw [heard_write_eq hn', if_neg (h.errors.2.endOf_ne _), h.errors.2.heard_eq]
    rfl
  · rw [heard_write_eq hn, heard_write_eq hn', h.heard e he hne]
    simp only [hends e he hne]

/-- A port that is not the pipe does not keep what comes to the outlet. -/
theorem Joins.endMap_ne (h : σ.Joins p p') (hn : σ.Port p p' n) (hne : n ≠ σ.pipe) :
    σ.endMap (.keeper n) ≠ σ.outlet := by
  intro he
  have hkeeps : p'.Keeps (σ.map n) := keeps_of_endOf (h.outlet.1.trans he.symm)
  cases hn with
  | pipe => exact hne rfl
  | errors =>
    rw [σ.map_errors] at hkeeps
    exact h.errors.2.not_keeps hkeeps
  | kept _ _ _ hout => exact hout he
  | file _ hn' =>
    rw [hkeeps.endOf_eq] at hn'
    cases hn'

/-- What is read from a port is the same in both pools, unless it is the pipe and that is not
empty. -/
theorem Joins.read (h : σ.Joins p p') (hn : σ.Port p p' n)
    (hdry : n = σ.pipe → p.heard (.keeper σ.pipe) = "") :
    (p.read n).1 = (p'.read (σ.map n)).1 ∧ σ.Joins (p.read n).2 (p'.read (σ.map n)).2 := by
  have hempty : ∀ {q : Pool} {m k : Nat}, q.heard (.keeper m) = "" →
      (q.read k).2.heard (.keeper m) = "" := by
    intro q m k hq
    rw [heard_read_eq, hq, ite_self]
  have hjoins : (∀ e, e ≠ .keeper σ.pipe → σ.endMap e ≠ σ.outlet →
      (p.read n).2.heard e = (p'.read (σ.map n)).2.heard (σ.endMap e)) →
      σ.Joins (p.read n).2 (p'.read (σ.map n)).2 :=
    h.grow (p.growsTo_read n) (p'.growsTo_read _) (by rw [next_read, next_read, h.next])
      (hempty h.output.heard_eq) (hempty h.errors.1.heard_eq) (hempty h.errors.2.heard_eq)
  rw [read_eq_heard, read_eq_heard]
  by_cases hpipe : n = σ.pipe
  · refine ⟨?_, hjoins fun e he hne => ?_⟩
    · rw [hpipe, hdry hpipe, σ.map_pipe, h.output.heard_eq]
    · rw [heard_read_eq, heard_read_eq, hpipe, if_neg he, σ.map_pipe, h.heard e he hne]
      split
      · next hout => rw [hout, h.output.heard_eq]
      · rfl
  · have hkeeper : End.keeper n ≠ .keeper σ.pipe := fun he => hpipe (End.keeper.inj he)
    refine ⟨h.heard _ hkeeper (h.endMap_ne hn hpipe), hjoins fun e he hne => ?_⟩
    have hsame : σ.endMap e = .keeper (σ.map n) ↔ e = .keeper n := σ.endMap_inj he hkeeper
    rw [heard_read_eq, heard_read_eq, h.heard e he hne]
    simp only [hsame]

/-- A stream that both runs open: it keeps its number but for the pipe before it. -/
theorem Joins.map_next (h : σ.Joins p p') : σ.map p.next = p'.next := by
  have hpipe : σ.pipe < p.next := h.pipe.takes
  rw [σ.map_of_gt hpipe, h.next]
  rfl

/-- The same stream is opened in both pools. -/
theorem Joins.append (h : σ.Joins p p') (s : Stream) :
    σ.Joins { p with streams := p.streams ++ [s] } { p' with streams := p'.streams ++ [s] } := by
  have hpipe : σ.pipe < p.next := h.pipe.takes
  refine h.grow (p.growsTo_append s) (p'.growsTo_append s) ?_ (h.output.append s).heard_eq
    (h.errors.1.append s).heard_eq (h.errors.2.append s).heard_eq fun e he hne => ?_
  · rw [next_append, next_append, h.next]
  · have hsame : σ.endMap e = .keeper p'.next ↔ e = .keeper p.next := by
      rw [← h.map_next]
      exact σ.endMap_inj he fun hn => Nat.ne_of_gt hpipe (End.keeper.inj hn)
    rw [heard_append_eq, heard_append_eq, h.heard e he hne]
    simp only [hsame]

/-- A stream that is opened to be read is a port. -/
theorem Joins.port_addKeeping (h : σ.Joins p p') (text : String) :
    σ.Port (p.addKeeping text).1 (p'.addKeeping text).1 p.next := by
  have hpipe : σ.pipe < p.next := h.pipe.takes
  refine .kept (Nat.ne_of_gt hpipe) ⟨_, p.getElem?_next ⟨.kept, text⟩, rfl⟩ ?_ ?_
  · rw [h.map_next]
    exact ⟨_, p'.getElem?_next ⟨.kept, text⟩, rfl⟩
  · rw [h.map_next]
    intro he
    have htakes := h.outlet.2
    rw [← he] at htakes
    exact absurd htakes (Nat.lt_irrefl p'.next)

/-- A new stream into a file is a port. -/
theorem Joins.port_addFile (h : σ.Joins p p') (path cwd : String) :
    σ.Port (p.add (.file path cwd)).1 (p'.add (.file path cwd)).1 p.next := by
  have hend : ∀ q : Pool, (q.add (.file path cwd)).1.endOf q.next = .file path cwd := fun q =>
    (endOf_of_stream (q.getElem?_next ⟨.file path cwd, ""⟩)).2 path cwd rfl
  refine .file (hend p) ?_
  rw [h.map_next]
  exact hend p'

end Splice

end TreeShell
