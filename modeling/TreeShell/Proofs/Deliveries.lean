import Mathlib.Data.List.Basic
import Mathlib.Data.List.Perm.Subperm
import Mathlib.Logic.Relation
import TreeShell.Proofs.Session.Splices
import TreeShell.Wiring

/-!
# What becomes of a text

Streams are opened, written to, read and led elsewhere in any order. As long as no chain of streams
comes back to itself, every chain has one end. A text comes to the end that its chain has at the
moment it is written, and stays there until it is read, whatever is led elsewhere later. So all that
was read from a stream and all that it keeps are, one after the other, all that came to it.
-/

namespace TreeShell

/-! ## Chains and their ends -/

namespace Pool

variable {p q : Pool} {n m : Nat} {e : End} {d : Destination}

/-- A stream hands on to another. -/
def LeadsTo (p : Pool) (n m : Nat) : Prop :=
  ∃ s, p.streams[n]? = some s ∧ s.destination = .stream m

/-- No chain of streams comes back to a stream that it has passed. -/
def Acyclic (p : Pool) : Prop := ∀ n, ¬ Relation.TransGen p.LeadsTo n n

/-- A stream or sink that a destination names is there. -/
def Has (p : Pool) : Destination → Prop
  | .stream n => n < p.next
  | .sink n => n < p.sinks.length
  | .kept | .file .. => True

/-- The streams lead to streams and sinks that are there. -/
def Closed (p : Pool) : Prop := ∀ s ∈ p.streams, p.Has s.destination

/-- The chain that begins with a stream comes to an end. -/
inductive EndsAt (p : Pool) : Nat → End → Prop
  | keeper {n : Nat} {s : Stream} : p.streams[n]? = some s → s.destination = .kept →
      EndsAt p n (.keeper n)
  | sink {n k : Nat} {s : Stream} : p.streams[n]? = some s → s.destination = .sink k →
      EndsAt p n (.sink k)
  | file {n : Nat} {path cwd : String} {s : Stream} : p.streams[n]? = some s →
      s.destination = .file path cwd → EndsAt p n (.file path cwd)
  | stream {n m : Nat} {e : End} : p.LeadsTo n m → EndsAt p m e → EndsAt p n e

/-- A stream leads to one stream at most. -/
theorem LeadsTo.unique {k : Nat} (h : p.LeadsTo n m) (h' : p.LeadsTo n k) : k = m := by
  obtain ⟨s, hs, hd⟩ := h
  obtain ⟨s', hs', hd'⟩ := h'
  rw [hs] at hs'
  cases hs'
  rw [hd] at hd'
  cases hd'
  rfl

/-- Only a stream that is there leads anywhere. -/
theorem LeadsTo.lt_next (h : p.LeadsTo n m) : n < p.next := by
  obtain ⟨s, hs, -⟩ := h
  exact (List.getElem?_eq_some_iff.mp hs).1

/-- A stream that does not hand on to another does not hand on to any. -/
theorem not_leadsTo {s : Stream} (hs : p.streams[n]? = some s)
    (hd : ∀ k, s.destination ≠ .stream k) : ¬ p.LeadsTo n m := by
  rintro ⟨s', hs', hd'⟩
  rw [hs] at hs'
  cases hs'
  exact hd m hd'

/-- What a chain follows to its end is no cycle. -/
theorem EndsAt.not_cycle (h : p.EndsAt n e) : ¬ Relation.TransGen p.LeadsTo n n := by
  induction h with
  | keeper hs hd | sink hs hd | file hs hd =>
    intro hcycle
    obtain ⟨m, hm, -⟩ := Relation.TransGen.head'_iff.mp hcycle
    refine not_leadsTo hs (fun k hk => ?_) hm
    rw [hd] at hk
    cases hk
  | stream hlead _ ih =>
    intro hcycle
    obtain ⟨k, hk, hback⟩ := Relation.TransGen.head'_iff.mp hcycle
    obtain rfl := hlead.unique hk
    exact ih (Relation.TransGen.tail' hback hlead)

/-- A route that ends somewhere is a chain of streams that does. -/
theorem endsAt_of_route {fuel : Nat} (h : p.route fuel n ≠ .nowhere) :
    p.EndsAt n (p.route fuel n) := by
  induction fuel generalizing n with
  | zero => exact absurd rfl h
  | succ fuel ih =>
    rw [route] at h ⊢
    cases hs : p.streams[n]? with
    | none =>
      rw [hs] at h
      exact absurd rfl h
    | some s =>
      rw [hs] at h
      dsimp only at h ⊢
      cases hd : s.destination with
      | kept => exact .keeper hs hd
      | sink k => exact .sink hs hd
      | file path cwd => exact .file hs hd
      | stream k =>
        rw [hd] at h
        exact .stream ⟨s, hs, hd⟩ (ih h)

/-- A chain that is followed to an end is followed to the end it comes to. -/
theorem EndsAt.route_eq (h : p.EndsAt n e) {fuel : Nat} (hend : p.route fuel n ≠ .nowhere) :
    p.route fuel n = e := by
  induction h generalizing fuel with
  | keeper hs hd | sink hs hd | file hs hd =>
    cases fuel with
    | zero => exact absurd rfl hend
    | succ fuel =>
      rw [route, hs]
      dsimp only
      rw [hd]
  | stream hlead _ ih =>
    obtain ⟨s, hs, hd⟩ := hlead
    cases fuel with
    | zero => exact absurd rfl hend
    | succ fuel =>
      rw [route, hs] at hend ⊢
      dsimp only at hend ⊢
      rw [hd] at hend ⊢
      exact ih hend

/-- A chain that comes back to no stream comes to an end before it has passed them all. `passed` are
the streams before it. -/
theorem Acyclic.route_ne_nowhere (h : p.Acyclic) (hclosed : p.Closed) {fuel : Nat}
    {passed : List Nat} (hnodup : passed.Nodup)
    (hpassed : ∀ k ∈ passed, k < p.next ∧ Relation.TransGen p.LeadsTo k n) (hn : n < p.next)
    (hfuel : p.next ≤ fuel + passed.length) : p.route fuel n ≠ .nowhere := by
  induction fuel generalizing n passed with
  | zero =>
    have hnew : n ∉ passed := fun hmem => h n (hpassed n hmem).2
    have hsubset : n :: passed ⊆ List.range p.next := by
      intro k hk
      rcases List.mem_cons.mp hk with rfl | hk
      · exact List.mem_range.mpr hn
      · exact List.mem_range.mpr (hpassed k hk).1
    have hlength := (List.subperm_of_subset (List.nodup_cons.mpr ⟨hnew, hnodup⟩) hsubset).length_le
    rw [List.length_cons, List.length_range] at hlength
    omega
  | succ fuel ih =>
    have hs : p.streams[n]? = some p.streams[n] := List.getElem?_eq_getElem hn
    have hhas := hclosed _ (List.getElem_mem hn)
    rw [route, hs]
    dsimp only
    cases hd : p.streams[n].destination with
    | stream m =>
      have hlead : p.LeadsTo n m := ⟨_, hs, hd⟩
      have hnew : n ∉ passed := fun hmem => h n (hpassed n hmem).2
      rw [hd] at hhas
      refine ih (List.nodup_cons.mpr ⟨hnew, hnodup⟩) (fun k hk => ?_) hhas ?_
      · rcases List.mem_cons.mp hk with rfl | hk
        · exact ⟨hn, .single hlead⟩
        · exact ⟨(hpassed k hk).1, (hpassed k hk).2.tail hlead⟩
      · rw [List.length_cons]
        omega
    | _ => exact End.noConfusion

/-- Where no chain comes back to itself, every chain comes to the end that is followed to. -/
theorem Acyclic.endsAt_endOf (h : p.Acyclic) (hclosed : p.Closed) (hn : n < p.next) :
    p.EndsAt n (p.endOf n) :=
  endsAt_of_route (h.route_ne_nowhere hclosed List.nodup_nil (fun _ hk => by cases hk) hn
    (Nat.le_refl _))

/-- Where every chain comes to an end, none comes back to itself. -/
theorem acyclic_of_endOf (h : ∀ n < p.next, p.endOf n ≠ .nowhere) : p.Acyclic := by
  intro n hcycle
  obtain ⟨m, hm, -⟩ := Relation.TransGen.head'_iff.mp hcycle
  exact (endsAt_of_route (h n hm.lt_next)).not_cycle hcycle

/-- An end that a chain comes to is there. -/
theorem EndsAt.lt_sinks {k : Nat} (h : p.EndsAt n (.sink k)) (hclosed : p.Closed) :
    k < p.sinks.length := by
  generalize he : End.sink k = e at h
  induction h with
  | keeper | file => cases he
  | sink hs hd =>
    cases he
    have hhas := hclosed _ (List.mem_of_getElem? hs)
    rwa [hd] at hhas
  | stream _ _ ih => exact ih he

/-! ## What a stream hears -/

/-- All that a sink has received. -/
def received (p : Pool) (n : Nat) : List String := (p.sinks[n]?.map Sink.received).getD []

/-- What is written is kept by the stream at the end, and by no other. -/
theorem heard_keeper_write (p : Pool) (n m : Nat) (text : String) :
    (p.write n text).heard (.keeper m) =
      p.heard (.keeper m) ++ if p.endOf n = .keeper m then text else "" := by
  by_cases he : p.endOf n = .keeper m
  · refine heard_write_eq ?_ _
    rw [he]
    exact (keeps_of_endOf he).takes
  · rw [heard_write_elsewhere he, if_neg he, String.append_empty]

/-- What is written is received by the sink at the end, and by no other. -/
theorem received_write (hclosed : p.Closed) (hn : p.EndsAt n (p.endOf n)) (m : Nat)
    (text : String) :
    (p.write n text).received m =
      p.received m ++ if p.endOf n = .sink m then [text] else [] := by
  cases he : p.endOf n with
  | sink k =>
    rw [write, he, received, received]
    dsimp only [deliver]
    rw [List.getElem?_modify]
    by_cases hkm : k = m
    · subst hkm
      rw [he] at hn
      rw [List.getElem?_eq_getElem (hn.lt_sinks hclosed)]
      simp
    · rw [if_neg fun hsink => hkm (End.sink.inj hsink), List.append_nil]
      simp [hkm]
  | _ =>
    rw [write, he]
    simp [keep, received]

/-- What has been heard somewhere stays when a stream is led elsewhere. -/
theorem heard_redirect (p : Pool) (n : Nat) (d : Destination) (e : End) :
    (p.redirect n d).heard e = p.heard e := by
  cases e with
  | keeper m =>
    rw [heard, heard, redirect, List.getElem?_modify]
    split
    · cases p.streams[m]? <;> rfl
    · cases p.streams[m]? <;> rfl
  | _ => rfl

/-! ## Pools whose streams lead somewhere -/

/-- Where no stream and no sink gets lost, every destination stays. -/
theorem Has.mono (h : p.Has d) (hnext : p.next ≤ q.next)
    (hsinks : p.sinks.length ≤ q.sinks.length) : q.Has d := by
  cases d with
  | stream n => exact Nat.lt_of_lt_of_le h hnext
  | sink n => exact Nat.lt_of_lt_of_le h hsinks
  | _ => trivial

/-- A new stream that leads to a place that is there keeps all streams within the pool. -/
theorem Closed.append (h : p.Closed) {s : Stream} (hs : p.Has s.destination) :
    Closed { p with streams := p.streams ++ [s] } := by
  intro s' hs'
  have hhas : p.Has s'.destination := by
    rcases List.mem_append.mp hs' with hold | hnew
    · exact h s' hold
    · cases List.mem_singleton.mp hnew
      exact hs
  exact hhas.mono (p.growsTo_append s).next_le (Nat.le_refl _)

/-- A change of one stream keeps all streams within the pool if it leads to places that are
there. -/
theorem Closed.modify (h : p.Closed) (n : Nat) {f : Stream → Stream}
    (hf : ∀ s ∈ p.streams, p.Has (f s).destination) :
    Closed { p with streams := p.streams.modify n f } := by
  intro s hs
  obtain ⟨k, hk⟩ := List.mem_iff_getElem?.mp hs
  rw [List.getElem?_modify] at hk
  obtain ⟨s', hs', rfl⟩ := Option.map_eq_some_iff.mp hk
  have hmem : s' ∈ p.streams := List.mem_of_getElem? hs'
  refine Has.mono (p := p) ?_ (Nat.le_of_eq (List.length_modify _ _ _).symm) (Nat.le_refl _)
  split
  · exact hf s' hmem
  · exact h s' hmem

/-- A write keeps all streams within the pool. -/
theorem Closed.write (h : p.Closed) (n : Nat) (text : String) : (p.write n text).Closed := by
  rw [Pool.write]
  cases p.endOf n with
  | keeper m => exact h.modify m fun s hs => h s hs
  | sink m => exact fun s hs => (h s hs).mono (Nat.le_refl _) (p.growsTo_deliver m text).sinks
  | _ => exact h

/-- Reading a stream keeps all streams within the pool. -/
theorem Closed.read (h : p.Closed) (n : Nat) : (p.read n).2.Closed := by
  rw [Pool.read]
  cases p.streams[n]? with
  | none => exact h
  | some s => exact h.modify n fun s hs => h s hs

/-! ## Streams that hand on -/

/-- A stream hands on what it gets, and keeps nothing of it. -/
def HandsOn (p : Pool) (n : Nat) : Prop :=
  ∃ s, p.streams[n]? = some s ∧ s.destination ≠ .kept

/-- Only a stream that is there hands on what it gets. -/
theorem HandsOn.lt_next (h : p.HandsOn n) : n < p.next := by
  obtain ⟨s, hs, -⟩ := h
  exact (List.getElem?_eq_some_iff.mp hs).1

/-- Nothing ends at a stream that hands on what it gets. -/
theorem HandsOn.endOf_ne (h : p.HandsOn n) (m : Nat) : p.endOf m ≠ .keeper n := by
  intro he
  obtain ⟨s, hs, hd⟩ := h
  obtain ⟨s', hs', hd'⟩ := keeps_of_endOf he
  rw [hs] at hs'
  cases hs'
  exact hd hd'

/-- A stream that hands on goes on doing so while the pool grows. -/
theorem GrowsTo.handsOn (hgrows : p.GrowsTo q) (h : p.HandsOn n) : q.HandsOn n := by
  obtain ⟨s, hs, hd⟩ := h
  obtain ⟨s', hs', hd'⟩ := hgrows.streams n s hs
  exact ⟨s', hs', hd' ▸ hd⟩

/-- A stream that is led to a place hands on from then on. -/
theorem handsOn_redirect (hn : n < p.next) (hd : d ≠ .kept) : (p.redirect n d).HandsOn n := by
  refine ⟨{ p.streams[n] with destination := d }, ?_, hd⟩
  rw [redirect, List.getElem?_modify, List.getElem?_eq_getElem hn]
  simp

/-- Another stream that is led elsewhere does not keep a stream from handing on. -/
theorem HandsOn.redirect (h : p.HandsOn n) (hne : m ≠ n) (d : Destination) :
    (p.redirect m d).HandsOn n := by
  obtain ⟨s, hs, hd⟩ := h
  refine ⟨s, ?_, hd⟩
  rw [Pool.redirect, List.getElem?_modify_ne _ _ hne]
  exact hs

/-! ## What is done with streams -/

/-- What can be done with streams. -/
inductive Step where
  /-- Open a stream that leads somewhere, or keeps what it gets. -/
  | new (destination : Destination)
  /-- Open a stream that keeps a text. -/
  | of (text : String)
  | write (stream : Nat) (text : String)
  | read (stream : Nat)
  /-- Lead a stream somewhere from now on. -/
  | pipe (stream : Nat) (destination : Destination)
  deriving DecidableEq

/-- What a step names is there. -/
def Step.Fits (p : Pool) : Step → Prop
  | .new destination => p.Has destination
  | .of _ => True
  | .write stream _ => stream < p.next
  | .read stream => stream < p.next
  | .pipe stream destination => stream < p.next ∧ p.Has destination

end Pool

/-- All that a log has of one place, in its order. -/
def textsOf {α : Type} [DecidableEq α] (place : α) (log : List (α × String)) : List String :=
  (log.filter fun entry => entry.1 = place).map Prod.snd

/-- The texts for a place in two logs are those of the first and those of the second. -/
theorem textsOf_append {α : Type} [DecidableEq α] (place : α) (log log' : List (α × String)) :
    textsOf place (log ++ log') = textsOf place log ++ textsOf place log' := by
  rw [textsOf, List.filter_append, List.map_append]
  rfl

/-- A log of one text has it for its place alone. -/
theorem textsOf_singleton {α : Type} [DecidableEq α] (place other : α) (text : String) :
    textsOf place [(other, text)] = if other = place then [text] else [] := by
  by_cases h : other = place
  · simp [textsOf, h]
  · simp [textsOf, h]

/-- A volume once a text has come to an end: a file there has it appended. -/
def Volume.receive (v : Volume) : Pool.End → String → Volume
  | .file path cwd, text => (v.perform cwd (.write path (.string text) true)).2
  | _, _ => v

namespace Wiring

open Pool

variable {w : Wiring} {step : Step} {steps : List Step}

/-- A wiring after a step. -/
def after (w : Wiring) : Step → Wiring
  | .new destination => (w.add destination).1
  | .of text => (w.addKeeping text).1
  | .write stream text => (w.write stream text).2
  | .read stream => (w.read stream).2
  | .pipe stream destination => { w with pool := w.pool.redirect stream destination }

/-- A wiring after some steps. -/
def run (w : Wiring) (steps : List Step) : Wiring := steps.foldl after w

/-- The text that comes to an end with a step. -/
def delivery (w : Wiring) : Step → List (End × String)
  | .of text => [(.keeper w.pool.next, text)]
  | .write stream text => [(w.pool.endOf stream, text)]
  | _ => []

/-- The text that is read with a step. -/
def taking (w : Wiring) : Step → List (Nat × String)
  | .read stream => [(stream, (w.read stream).1)]
  | _ => []

/-- The texts that come to ends, in the order they come. -/
def deliveries (w : Wiring) : List Step → List (End × String)
  | [] => []
  | step :: steps => w.delivery step ++ (w.after step).deliveries steps

/-- The texts that are read, in the order they are read. -/
def takings (w : Wiring) : List Step → List (Nat × String)
  | [] => []
  | step :: steps => w.taking step ++ (w.after step).takings steps

/-- The steps name streams and sinks that are there, and at no moment does a chain come back to
itself. -/
def Untangled (w : Wiring) : List Step → Prop
  | [] => w.pool.Acyclic
  | step :: steps => w.pool.Acyclic ∧ step.Fits w.pool ∧ (w.after step).Untangled steps

/-- A run of steps goes on with the later ones where the earlier ones end. -/
theorem run_append (w : Wiring) (steps later : List Step) :
    w.run (steps ++ later) = (w.run steps).run later :=
  List.foldl_append

/-- The deliveries of a run go on with those of the later steps. -/
theorem deliveries_append (w : Wiring) (steps later : List Step) :
    w.deliveries (steps ++ later) = w.deliveries steps ++ (w.run steps).deliveries later := by
  induction steps generalizing w with
  | nil => rfl
  | cons step steps ih =>
    rw [List.cons_append, deliveries, ih, deliveries, List.append_assoc]
    rfl

/-! ## One step -/

/-- A write changes the pool of a wiring as it changes any pool. -/
theorem pool_write (w : Wiring) (n : Nat) (text : String) :
    (w.write n text).2.pool = w.pool.write n text := by
  rw [Wiring.write, Pool.write]
  cases he : w.pool.endOf n with
  | file path cwd => rfl
  | _ => rfl

/-- A step that fits keeps all streams within the pool. -/
theorem closed_after (h : w.pool.Closed) (hfits : step.Fits w.pool) :
    (w.after step).pool.Closed := by
  cases step with
  | new destination => exact h.append hfits
  | of text => exact h.append trivial
  | write n text =>
    rw [after, pool_write]
    exact h.write n text
  | read n => exact h.read n
  | pipe n destination => exact h.modify n fun _ _ => hfits.2

/-- What is read from a stream and what it keeps after a step are what it kept before and what came
to it. -/
theorem taken_append_kept (w : Wiring) (step : Step) (n : Nat) :
    String.join (textsOf n (w.taking step)) ++ (w.after step).pool.heard (.keeper n) =
      w.pool.heard (.keeper n) ++ String.join (textsOf (.keeper n) (w.delivery step)) := by
  cases step with
  | new destination =>
    have hheard := heard_append_eq w.pool ⟨destination, ""⟩ (.keeper n)
    change "" ++ heard { w.pool with streams := w.pool.streams ++ [⟨destination, ""⟩] } _ = _ ++ ""
    rw [hheard, String.empty_append, String.append_empty]
    split
    · next he => rw [he, heard_of_next_le (Nat.le_refl _)]
    · rfl
  | of text =>
    have hheard := heard_append_eq w.pool ⟨.kept, text⟩ (.keeper n)
    change "" ++ heard { w.pool with streams := w.pool.streams ++ [⟨.kept, text⟩] } _ = _
    rw [hheard, String.empty_append, delivery, textsOf_singleton]
    split
    · next he => rw [he, heard_of_next_le (Nat.le_refl _), if_pos rfl]; simp
    · next he => rw [if_neg (Ne.symm he)]; simp
  | write m text =>
    have hnone : w.taking (.write m text) = [] := rfl
    rw [hnone, after, pool_write, heard_keeper_write, delivery, textsOf_singleton]
    split <;> simp [textsOf]
  | read m =>
    have hheard := heard_read w.pool n m
    change _ ++ (w.pool.read m).2.heard _ = _ ++ ""
    rw [hheard, taking, textsOf_singleton, String.append_empty]
    split
    · next he =>
      rw [he]
      simp [Wiring.read, read_eq_heard]
    · simp
  | pipe m destination =>
    change "" ++ (w.pool.redirect m destination).heard _ = _ ++ ""
    rw [heard_redirect, String.empty_append, String.append_empty]

/-- What a sink has received after a step is what it had received and what came to it. -/
theorem received_after (hclosed : w.pool.Closed) (hacyclic : w.pool.Acyclic)
    (hfits : step.Fits w.pool) (n : Nat) :
    (w.after step).pool.received n =
      w.pool.received n ++ textsOf (.sink n) (w.delivery step) := by
  cases step with
  | write m text =>
    rw [after, pool_write, received_write hclosed (hacyclic.endsAt_endOf hclosed hfits), delivery,
      textsOf_singleton]
  | of text =>
    rw [delivery, textsOf_singleton, if_neg End.noConfusion, List.append_nil]
    rfl
  | read m =>
    have hsinks : (w.pool.read m).2.sinks = w.pool.sinks := by
      rw [Pool.read]
      cases w.pool.streams[m]? <;> rfl
    change ((w.pool.read m).2.sinks[n]?.map Sink.received).getD [] = _ ++ []
    rw [hsinks, List.append_nil, received]
  | _ => exact (List.append_nil _).symm

/-- A volume after a step has received what came to its files. -/
theorem volume_after (w : Wiring) (step : Step) :
    (w.after step).volume =
      (w.delivery step).foldl (fun v d => v.receive d.1 d.2) w.volume := by
  cases step with
  | write m text =>
    rw [after, Wiring.write, delivery, List.foldl_cons, List.foldl_nil]
    cases w.pool.endOf m <;> rfl
  | _ => rfl

/-! ## Any steps -/

/-- An untangled run keeps all streams within the pool. -/
theorem closed_run (h : w.pool.Closed) (hrun : w.Untangled steps) :
    (w.run steps).pool.Closed := by
  induction steps generalizing w with
  | nil => exact h
  | cons step steps ih => exact ih (closed_after h hrun.2.1) hrun.2.2

/-- The later part of an untangled run is untangled where the earlier part ends. -/
theorem Untangled.run {later : List Step} (h : w.Untangled (steps ++ later)) :
    w.Untangled steps ∧ (w.run steps).Untangled later := by
  induction steps generalizing w with
  | nil => exact ⟨by cases later with | nil => exact h | cons => exact h.1, h⟩
  | cons step steps ih => exact ⟨⟨h.1, h.2.1, (ih h.2.2).1⟩, (ih h.2.2).2⟩

/-- What was taken from a stream, with what it still keeps, is what it kept at first, with what was
delivered to it. -/
theorem takings_append_kept (w : Wiring) (steps : List Step) (n : Nat) :
    String.join (textsOf n (w.takings steps)) ++ (w.run steps).pool.heard (.keeper n) =
      w.pool.heard (.keeper n) ++ String.join (textsOf (.keeper n) (w.deliveries steps)) := by
  induction steps generalizing w with
  | nil => exact String.empty_append.trans String.append_empty.symm
  | cons step steps ih =>
    rw [takings, deliveries, textsOf_append, textsOf_append, String.join_append,
      String.join_append, String.append_assoc]
    have hlater := ih (w.after step)
    have hstep := taken_append_kept w step n
    calc String.join (textsOf n (w.taking step)) ++
          (String.join (textsOf n ((w.after step).takings steps)) ++
            ((w.after step).run steps).pool.heard (.keeper n))
        = (String.join (textsOf n (w.taking step)) ++ (w.after step).pool.heard (.keeper n)) ++
            String.join (textsOf (.keeper n) ((w.after step).deliveries steps)) := by
          rw [hlater, String.append_assoc]
      _ = _ := by rw [hstep, String.append_assoc]

/-- A sink receives what is delivered to it, behind what it had received. -/
theorem received_run (hclosed : w.pool.Closed) (hrun : w.Untangled steps) (n : Nat) :
    (w.run steps).pool.received n =
      w.pool.received n ++ textsOf (.sink n) (w.deliveries steps) := by
  induction steps generalizing w with
  | nil => exact (List.append_nil _).symm
  | cons step steps ih =>
    have hlater := ih (closed_after hclosed hrun.2.1) hrun.2.2
    rw [deliveries, textsOf_append, ← List.append_assoc,
      ← received_after hclosed hrun.1 hrun.2.1 n]
    exact hlater

/-- The volume of a wiring receives the deliveries of a run, one after another. -/
theorem volume_run (w : Wiring) (steps : List Step) :
    (w.run steps).volume =
      (w.deliveries steps).foldl (fun v d => v.receive d.1 d.2) w.volume := by
  induction steps generalizing w with
  | nil => rfl
  | cons step steps ih =>
    rw [deliveries, List.foldl_append, ← volume_after]
    exact ih (w.after step)

/-! ## Streams that are led elsewhere -/

/-- A stream hands on after each step but the one that has it keep. -/
theorem handsOn_after {n : Nat} (h : w.pool.HandsOn n) (hstep : step ≠ .pipe n .kept) :
    (w.after step).pool.HandsOn n := by
  cases step with
  | new destination => exact (w.pool.growsTo_add destination).handsOn h
  | of text => exact (w.pool.growsTo_addKeeping text).handsOn h
  | write m text =>
    rw [after, pool_write]
    exact (w.pool.growsTo_write m text).handsOn h
  | read m => exact (w.pool.growsTo_read m).handsOn h
  | pipe m destination =>
    by_cases hm : m = n
    · subst hm
      exact handsOn_redirect h.lt_next fun hd => hstep (by rw [hd])
    · exact h.redirect hm destination

/-- Nothing is delivered to a stream that hands on. -/
theorem no_delivery {n : Nat} (h : w.pool.HandsOn n) (step : Step) :
    textsOf (.keeper n) (w.delivery step) = [] := by
  cases step with
  | of text =>
    rw [delivery, textsOf_singleton, if_neg]
    exact fun he => Nat.ne_of_gt h.lt_next (End.keeper.inj he)
  | write m text =>
    rw [delivery, textsOf_singleton, if_neg (h.endOf_ne m)]
  | _ => rfl

/-- As long as a stream hands on what it gets, nothing comes to it. -/
theorem no_deliveries {n : Nat} (h : w.pool.HandsOn n) (hsteps : .pipe n .kept ∉ steps) :
    textsOf (.keeper n) (w.deliveries steps) = [] := by
  induction steps generalizing w with
  | nil => rfl
  | cons step steps ih =>
    obtain ⟨hstep, hlater⟩ := not_or.mp (fun he => hsteps (List.mem_cons.mpr he))
    rw [deliveries, textsOf_append, no_delivery h, ih (handsOn_after h (Ne.symm hstep)) hlater]
    rfl

/-! ## Texts are neither lost nor doubled -/

/-- A wiring once a text has come to an end. -/
def arrive (w : Wiring) (e : End) (text : String) : Wiring :=
  match e with
  | .keeper n => { w with pool := w.pool.keep n text }
  | .sink n => { w with pool := w.pool.deliver n text }
  | .file .. => { w with volume := w.volume.receive e text }
  | .nowhere => w

/-- What is written to a stream arrives where the stream ends. -/
theorem write_eq_arrive (w : Wiring) (n : Nat) (text : String) :
    (w.write n text).2 = w.arrive (w.pool.endOf n) text := by
  rw [Wiring.write, Pool.write]
  cases w.pool.endOf n <;> rfl

/-- What becomes of the texts of some steps. -/
structure Conserves (w : Wiring) (steps : List Step) : Prop where
  /-- A text that is written comes once, at that moment, to the one end of its chain. -/
  written : ∀ before n text later, steps = before ++ .write n text :: later →
    ∃ e, (w.run before).pool.EndsAt n e ∧ (∀ e', (w.run before).pool.EndsAt n e' → e' = e) ∧
      w.run (before ++ [.write n text]) = (w.run before).arrive e text ∧
      w.deliveries steps = w.deliveries before ++
        (e, text) :: (w.run (before ++ [.write n text])).deliveries later
  /-- What was read from a stream and what it keeps are what it kept and what came to it. -/
  kept : ∀ n, String.join (textsOf n (w.takings steps)) ++ (w.run steps).pool.heard (.keeper n) =
    w.pool.heard (.keeper n) ++ String.join (textsOf (.keeper n) (w.deliveries steps))
  /-- A sink has received what came to it. -/
  received : ∀ n, (w.run steps).pool.received n =
    w.pool.received n ++ textsOf (.sink n) (w.deliveries steps)
  /-- Files have been appended what came to them, and nothing else is done to the volume. -/
  stored : (w.run steps).volume =
    (w.deliveries steps).foldl (fun v d => v.receive d.1 d.2) w.volume
  /-- A stream that is led elsewhere leaves all that was kept where it is. What is read from it
  later was kept there before, unless it is made to keep texts again. -/
  piped : ∀ before n d later, steps = before ++ .pipe n d :: later →
    (∀ e, (w.run (before ++ [.pipe n d])).pool.heard e = (w.run before).pool.heard e) ∧
      (d ≠ .kept → .pipe n .kept ∉ later →
        String.join (textsOf n ((w.run (before ++ [.pipe n d])).takings later)) ++
          (w.run steps).pool.heard (.keeper n) = (w.run before).pool.heard (.keeper n))

/-- Where no chain comes back to itself, streams neither lose nor double a text. -/
theorem conserves_of_untangled (hclosed : w.pool.Closed) (hsteps : w.Untangled steps) :
    w.Conserves steps where
  written before n text later he := by
    subst he
    have hthen := closed_run hclosed hsteps.run.1
    obtain ⟨hacyclic, hfits, -⟩ := hsteps.run.2
    have hends := hacyclic.endsAt_endOf hthen hfits
    have hend := (hacyclic.route_ne_nowhere hthen List.nodup_nil (fun _ hk => by cases hk) hfits
      (Nat.le_refl _))
    refine ⟨_, hends, fun e' he' => (he'.route_eq hend).symm, ?_, ?_⟩
    · rw [run_append]
      exact write_eq_arrive _ n text
    · rw [deliveries_append, run_append]
      rfl
  kept := takings_append_kept w steps
  received := received_run hclosed hsteps
  stored := volume_run w steps
  piped before n d later he := by
    subst he
    have hthen : w.run (before ++ [.pipe n d]) = (w.run before).after (.pipe n d) := run_append ..
    have hheard : ∀ e, (w.run (before ++ [.pipe n d])).pool.heard e =
        (w.run before).pool.heard e := by
      rw [hthen]
      exact heard_redirect _ n d
    refine ⟨hheard, fun hd hlater => ?_⟩
    have hhands : (w.run (before ++ [.pipe n d])).pool.HandsOn n := by
      rw [hthen]
      exact handsOn_redirect hsteps.run.2.2.1.1 hd
    have hlast : w.run (before ++ .pipe n d :: later) =
        (w.run (before ++ [.pipe n d])).run later := by
      rw [← run_append, List.append_assoc]
      rfl
    rw [hlast, takings_append_kept, no_deliveries hhands hlater, hheard]
    exact String.append_empty

/-- A stream that keeps a text is led to another, which is then led to a sink. -/
theorem conserves_led_elsewhere :
    (⟨default, ⟨[], [⟨"sink", []⟩]⟩⟩ : Wiring).Conserves
        [.of "a", .new .kept, .pipe 0 (.stream 1), .write 0 "b", .pipe 1 (.sink 0), .write 0 "c",
          .read 0, .read 1] ∧
      (⟨default, ⟨[], [⟨"sink", []⟩]⟩⟩ : Wiring).deliveries
        [.of "a", .new .kept, .pipe 0 (.stream 1), .write 0 "b", .pipe 1 (.sink 0), .write 0 "c",
          .read 0, .read 1] = [(.keeper 0, "a"), (.keeper 1, "b"), (.sink 0, "c")] :=
  ⟨conserves_of_untangled (fun _ hs => by cases hs)
    ⟨acyclic_of_endOf (by decide), trivial,
      acyclic_of_endOf (by decide), trivial,
      acyclic_of_endOf (by decide), ⟨by decide, (by decide : 1 < 2)⟩,
      acyclic_of_endOf (by decide), (by decide : 0 < 2),
      acyclic_of_endOf (by decide), ⟨by decide, (by decide : 0 < 1)⟩,
      acyclic_of_endOf (by decide), (by decide : 0 < 2),
      acyclic_of_endOf (by decide), (by decide : 0 < 2),
      acyclic_of_endOf (by decide), (by decide : 1 < 2),
      acyclic_of_endOf (by decide)⟩,
    by decide⟩

end Wiring

end TreeShell
