import TreeShell.Proofs.Session.Bindings

/-!
# What descriptors write

When the redirections of a stage have been applied, every descriptor leads to the stream that it is
bound to. A text that is written to it is kept there or put behind what its file holds, whichever
descriptors and paths lead to that file; no such write is refused, and nothing else is changed.
-/

namespace TreeShell

open TreeShell.Path

/-! ## Redirections in their turn -/

namespace Redirection

variable {r : Redirection} {rs : List Redirection} {table table' table'' : Table} {cwd : String}
  {w w' u u' : Wiring} {defaults : Ends} {n i : Nat}

/-- What is done for a redirection in its turn, and what the stream `n`, if that is opened, holds in
the end or leads to. -/
inductive Turn (r : Redirection) (cwd : String) (u u' : Wiring) (n : Nat) (w' : Wiring) : Prop where
  /-- Nothing is opened. -/
  | copied {m : Nat} (ht : r.target = .descriptor m) (hsame : u' = u)
  /-- A stream is opened with what the file holds, and nothing else is done. -/
  | read {path : String} {content : Content} (hop : r.operator = .read) (ht : r.target = .file path)
    (hc : u.volume.tree.item?.content? (resolve path cwd) = some content)
    (hsame : u'.volume = u.volume) (hkept : w'.pool.streams[n]? = some ⟨.kept, content.plain⟩)
  /-- The file is made, emptied or left as it is, and a stream is opened that leads there. -/
  | written {path text : String} (hop : r.operator = .write ∨ r.operator = .append)
    (ht : r.target = .file path)
    (htext : if r.operator = .append then
        (u.volume.tree.item?.content? (resolve path cwd)).getD (.string "") = .string text
      else text = "")
    (hputs : u.volume.Puts (resolve path cwd) (.string text) u'.volume)
    (hleads : w'.pool.streams[n]? = some ⟨.file path cwd, ""⟩)
    (hheld : ∃ text', w'.volume.tree.item?.content? (resolve path cwd) = some (.string text'))

/-- What every redirection keeps is kept by all of them. -/
theorem connectAll_keeps {P : Wiring → Prop} (h : connectAll cwd rs table w = (.ok table', w'))
    (hw : P w) (hstep : ∀ r table u n u', Connected r table cwd u n u' → P u → P u') : P w' := by
  induction rs generalizing table w with
  | nil =>
    cases h
    exact hw
  | cons r rest ih =>
    rw [connectAll] at h
    split at h
    · cases h
    · next hr => exact ih h (hstep _ _ _ _ _ (connected hr) hw)

/-- Streams that are there stay as they are. -/
theorem connectAll_streams (h : connectAll cwd rs table w = (.ok table', w')) {s : Stream}
    (hs : w.pool.streams[n]? = some s) : w'.pool.streams[n]? = some s :=
  connectAll_keeps (P := fun u => u.pool.streams[n]? = some s) h hs fun r table u m u' hr hu => by
    obtain ⟨rest, hstreams, -⟩ := hr.streams
    rw [hstreams, List.getElem?_append_left (List.getElem?_eq_some_iff.mp hu).1]
    exact hu

/-- A file that holds a text still does. -/
theorem connectAll_text (h : connectAll cwd rs table w = (.ok table', w'))
    (hw : w.volume.tree.WellFormed) {p : Segments}
    (hp : ∃ text, w.volume.tree.item?.content? p = some (.string text)) :
    ∃ text, w'.volume.tree.item?.content? p = some (.string text) :=
  (connectAll_keeps (P := fun u => u.volume.tree.WellFormed ∧
      ∃ text, u.volume.tree.item?.content? p = some (.string text)) h ⟨hw, hp⟩
    fun _ _ _ _ _ hr hu => ⟨hr.wellFormed hu.1, hr.text hu.1 hu.2⟩).2

/-- A redirection that is carried out takes its turn before the rest. -/
theorem Connected.turn (h : r.Connected table cwd u n u') (hu : u.volume.tree.WellFormed)
    (hrest : connectAll cwd rs table' u' = (.ok table'', w')) :
    r.Turn cwd u u' u.pool.next w' := by
  have hlast : ∀ s : Stream, (u.pool.streams ++ [s])[u.pool.next]? = some s := fun s => by
    rw [Pool.next, List.getElem?_concat_length]
  cases h with
  | copied ht => exact .copied ht rfl
  | read hop ht hc => exact .read hop ht hc rfl (connectAll_streams hrest (hlast _))
  | written hop ht hv =>
    obtain ⟨text, hputs, htext⟩ := Volume.puts_of_open hu hv
    exact .written hop ht (by simpa using htext) hputs (connectAll_streams hrest (hlast _))
      (connectAll_text hrest hputs.wellFormed ⟨text, hputs.content⟩)

/-- Every redirection has its turn, at the place where it is written. -/
theorem turn_of_connectAll (hw : w.volume.tree.WellFormed)
    (h : connectAll cwd rs (Table.ofEnds defaults) w = (.ok table, w')) (hr : rs[i]? = some r) :
    ∃ t u t' u', connectAll cwd (rs.take i) (Table.ofEnds defaults) w = (.ok t, u) ∧
      connectAll cwd (rs.take (i + 1)) (Table.ofEnds defaults) w = (.ok t', u') ∧
        r.Turn cwd u u' (openedStream w.pool.next rs i) w' := by
  obtain ⟨hi, hget⟩ := List.getElem?_eq_some_iff.mp hr
  have hsplit : rs = rs.take (i + 1) ++ rs.drop (i + 1) := (List.take_append_drop _ _).symm
  have hsnoc : rs.take (i + 1) = rs.take i ++ [r] := by
    rw [← hget, List.take_succ_eq_append_getElem hi]
  rw [hsplit] at h
  obtain ⟨t', u', hnow, hrest⟩ := connectAll_eq_ok_append h
  have hnow' := hnow
  rw [hsnoc] at hnow'
  obtain ⟨t, u, hbefore, hone⟩ := connectAll_eq_ok_append hnow'
  obtain ⟨n, hconnected, -⟩ := connectAll_eq_ok_singleton hone
  have happlied := applied_of_connectAll hw hbefore
  have hnext : u.pool.next = openedStream w.pool.next rs i := by
    rw [happlied.next, openedStream, openedStream, List.take_length]
  rw [← hnext]
  exact ⟨t, u, t', u', hbefore, hnow, hconnected.turn happlied.wellFormed hrest⟩

/-- The place of the file that a redirection leads a descriptor to, if it is for writing. -/
def outputPlace? (cwd : String) (r : Redirection) : Option Segments :=
  match r.operator, r.target with
  | .write, .file path | .append, .file path => some (resolve path cwd)
  | _, _ => none

/-- An output to a file writes at its path. -/
theorem outputPlace?_of_output {path : String} (hop : r.operator = .write ∨ r.operator = .append)
    (ht : r.target = .file path) : outputPlace? cwd r = some (resolve path cwd) := by
  rcases hop with hop | hop
  · rw [outputPlace?, hop, ht]
  · rw [outputPlace?, hop, ht]

/-- The place of the file that a descriptor is bound to for writing, if it is. -/
def placeOf? (cwd : String) (rs : List Redirection) (k : Nat) : Option Segments :=
  match binding? rs.reverse k with
  | some (.opened i) => rs[i]?.bind (outputPlace? cwd)
  | _ => none

end Redirection

/-! ## A stage that is ready -/

open Redirection

/-- A stage that was made ready from a wiring: what its descriptors are bound to, and how that came
about. -/
structure Stage.Ready (rs : List Redirection) (defaults : Ends) (cwd : String) (w : Wiring)
    (ends : Ends) (w' : Wiring) : Prop where
  wellFormed : w'.volume.tree.WellFormed
  /-- Each of the three descriptors leads to the stream that it is bound to. -/
  bound : ∀ k : Fin 3, ∃ b, binding? rs.reverse k = some b ∧
    ends.get k = b.stream defaults w.pool.next rs
  /-- The streams that were there are as they were. -/
  streams : ∀ (n : Nat) (s : Stream), w.pool.streams[n]? = some s → w'.pool.streams[n]? = some s
  /-- Each redirection has its turn, when all that are written before it have been applied. -/
  turns : ∀ i r, rs[i]? = some r →
    ∃ t u t' u', connectAll cwd (rs.take i) (Table.ofEnds defaults) w = (.ok t, u) ∧
      connectAll cwd (rs.take (i + 1)) (Table.ofEnds defaults) w = (.ok t', u') ∧
        r.Turn cwd u u' (openedStream w.pool.next rs i) w'

variable {command cwd : String} {defaults : Ends} {w w' w'' : Wiring} {stage : Stage}

/-- A stage that is ready has been read, and all its redirections were carried out. -/
theorem Stage.resolve_eq_ok (h : Stage.resolve command defaults cwd w = (.ok stage, w')) :
    ∃ parts table, Parts.ofStage command = .ok parts ∧
      connectAll cwd parts.redirections (Table.ofEnds defaults) w = (.ok table, w') ∧
        stage = ⟨parts.name, parts.arguments, table.ends defaults,
          parts.redirections.map Redirection.descriptor⟩ := by
  unfold Stage.resolve at h
  split at h
  · cases h
  · next parts hparts =>
    split at h
    · cases h
    · next table _ hc =>
      cases h
      exact ⟨parts, table, hparts, hc, rfl⟩

/-- The streams of a stage are those in the table, or else the usual ones. -/
theorem Table.get_ends (table : Table) (defaults : Ends) (k : Fin 3) :
    (table.ends defaults).get k = (table.get? k).getD (defaults.get k) := by
  fin_cases k <;> rfl

/-- No redirection takes one of the first three descriptors away. -/
theorem Redirection.exists_binding? {rs : List Redirection} {table : Table}
    (hw : w.volume.tree.WellFormed)
    (h : connectAll cwd rs (Table.ofEnds defaults) w = (.ok table, w')) (k : Fin 3) :
    ∃ b, binding? rs.reverse k = some b := by
  induction rs using List.reverseRecOn generalizing table w' with
  | nil => exact ⟨.standard k, dif_pos k.isLt⟩
  | append_singleton rs r ih =>
    obtain ⟨t, u, hbefore, hlast⟩ := connectAll_eq_ok_append h
    obtain ⟨n, hr, -⟩ := connectAll_eq_ok_singleton hlast
    rw [List.reverse_concat, binding?]
    split
    · cases hr with
      | @copied m n ht hn =>
        rw [(applied_of_connectAll hw hbefore).bound, Option.map_eq_some_iff] at hn
        obtain ⟨b, hb, -⟩ := hn
        rw [ht]
        exact ⟨b, hb⟩
      | read hop ht hc => exact ⟨_, by rw [ht]⟩
      | written hop ht hv => exact ⟨_, by rw [ht]⟩
    · exact ih hbefore

/-- A stage is ready when all its redirections were carried out. -/
theorem Stage.ready_of_connectAll {rs : List Redirection} {table : Table}
    (hw : w.volume.tree.WellFormed)
    (h : connectAll cwd rs (Table.ofEnds defaults) w = (.ok table, w')) :
    Stage.Ready rs defaults cwd w (table.ends defaults) w' := by
  have happlied := applied_of_connectAll hw h
  refine ⟨happlied.wellFormed, fun k => ?_, fun n s hs => connectAll_streams h hs,
    fun i r hr => turn_of_connectAll hw h hr⟩
  obtain ⟨b, hb⟩ := exists_binding? hw h k
  refine ⟨b, hb, ?_⟩
  rw [Table.get_ends, happlied.bound, hb]
  rfl

/-! ## One write -/

namespace Wiring

/-- Where a text goes that is written to a stream: into a file that holds a text, or it is kept. -/
inductive Leads (w : Wiring) (n : Nat) : Option Segments → Prop where
  | file {path cwd kept old : String} (hs : w.pool.streams[n]? = some ⟨.file path cwd, kept⟩)
    (ht : w.volume.tree.item?.content? (resolve path cwd) = some (.string old)) :
    Leads w n (some (resolve path cwd))
  | kept {kept : String} (hs : w.pool.streams[n]? = some ⟨.kept, kept⟩) : Leads w n none

/-- What a text that is written to a stream changes: what is held at its place, or kept in the
stream, gets the text behind it, and all else is as it was. -/
structure Wrote (w : Wiring) (n : Nat) (place : Option Segments) (text : String) (w' : Wiring) :
    Prop where
  wellFormed : w'.volume.tree.WellFormed
  held : ∀ p old, w.volume.tree.item?.content? p = some (.string old) →
    w'.volume.tree.item?.content? p =
      some (.string (old ++ if place = some p then text else ""))
  elsewhere : ∀ p, place ≠ some p → w'.volume.tree.item? p = w.volume.tree.item? p
  streams : ∀ (m : Nat) (s : Stream), w.pool.streams[m]? = some s →
    w'.pool.streams[m]? = some { s with
      kept := s.kept ++ if s.destination = .kept ∧ m = n then text else "" }

end Wiring

/-- A text that is written to a stream goes where the stream leads. -/
theorem Wiring.Leads.write {n : Nat} {place : Option Segments} (h : w.Leads n place)
    (hw : w.volume.tree.WellFormed) (text : String) :
    ∃ w', w.write n text = (.ok (), w') ∧ w.Wrote n place text w' := by
  cases h with
  | @file path cwd kept old hs ht =>
    have hend := (Pool.endOf_of_stream hs).2 path cwd rfl
    obtain ⟨v, hv, hputs⟩ := Volume.perform_append_text hw ht text
    refine ⟨{ w with volume := v }, ?_, hputs.wellFormed, fun p old' hp => ?_, fun p hp => ?_,
      fun m s hm => ?_⟩
    · rw [Wiring.write, hend]
      dsimp only
      rw [hv]
    · by_cases he : p = resolve path cwd
      · subst he
        rw [ht] at hp
        cases hp
        rw [if_pos rfl]
        exact hputs.content
      · rw [if_neg (fun h => he (Option.some.inj h).symm), String.append_empty]
        exact (hputs.content?_of_ne he).trans hp
    · exact hputs.elsewhere p fun he => hp (by rw [he])
    · have hsame : ¬ (s.destination = .kept ∧ m = n) := by
        rintro ⟨hd, rfl⟩
        rw [hs] at hm
        cases hm
        cases hd
      rw [if_neg hsame, String.append_empty]
      exact hm
  | @kept kept hs =>
    have hend := (Pool.endOf_of_stream hs).1 rfl
    have hfile : ∀ path cwd, w.pool.endOf n ≠ .file path cwd := by
      rw [hend]
      exact fun _ _ => Pool.End.noConfusion
    refine ⟨{ w with pool := w.pool.keep n text }, ?_, hw, fun p old hp => ?_, fun p _ => rfl,
      fun m s hm => ?_⟩
    · rw [Wiring.write, hend]
      dsimp only
      rw [Pool.write, hend]
    · rw [if_neg (fun h => by cases h), String.append_empty]
      exact hp
    · rw [Pool.keep, List.getElem?_modify, hm]
      by_cases he : m = n
      · subst he
        rw [hs] at hm
        cases hm
        simp
      · simp [he, Ne.symm he]

/-- A stream leads where it led. -/
theorem Wiring.Wrote.leads {n m : Nat} {place place' : Option Segments} {text : String}
    (h : w.Wrote n place text w') (hm : w.Leads m place') : w'.Leads m place' := by
  cases hm with
  | file hs ht => exact .file (h.streams m _ hs) (h.held _ _ ht)
  | kept hs => exact .kept (h.streams m _ hs)

/-! ## All writes -/

namespace Wiring

/-- Write texts to descriptors, one after another, as far as the first that is refused. -/
def writeAll (ends : Ends) : List (Fin 3 × String) → Wiring → Except PathError Unit × Wiring
  | [], w => (.ok (), w)
  | (k, text) :: rest, w =>
    match w.write (ends.get k) text with
    | (.error e, w) => (.error e, w)
    | (.ok _, w) => writeAll ends rest w

/-- The texts that are written to some descriptors, in order. -/
def textsTo (f : Fin 3 → Bool) : List (Fin 3 × String) → String
  | [] => ""
  | (k, text) :: rest => (if f k then text else "") ++ textsTo f rest

/-- What texts that are written to descriptors change: what is held at the place that a descriptor
leads to, or kept in its stream, gets the texts behind it, and all else is as it was. -/
structure WroteAll (w : Wiring) (ends : Ends) (places : Fin 3 → Option Segments)
    (ws : List (Fin 3 × String)) (w' : Wiring) : Prop where
  held : ∀ p old, w.volume.tree.item?.content? p = some (.string old) →
    w'.volume.tree.item?.content? p = some (.string (old ++ textsTo (places · = some p) ws))
  elsewhere : ∀ p, (∀ k, places k ≠ some p) → w'.volume.tree.item? p = w.volume.tree.item? p
  streams : ∀ (m : Nat) (s : Stream), w.pool.streams[m]? = some s →
    w'.pool.streams[m]? = some { s with
      kept := s.kept ++ textsTo (fun k => s.destination = .kept ∧ m = ends.get k) ws }

/-- Writes to streams that lead to places all arrive there. -/
theorem writeAll_of_leads {ends : Ends} {places : Fin 3 → Option Segments}
    (h : ∀ k, w.Leads (ends.get k) (places k)) (hw : w.volume.tree.WellFormed)
    (ws : List (Fin 3 × String)) :
    ∃ w', w.writeAll ends ws = (.ok (), w') ∧ w.WroteAll ends places ws w' := by
  induction ws generalizing w with
  | nil =>
    refine ⟨w, rfl, fun p old hp => ?_, fun p _ => rfl, fun m s hm => ?_⟩
    · rw [textsTo, String.append_empty]
      exact hp
    · rw [textsTo, String.append_empty]
      exact hm
  | cons e rest ih =>
    obtain ⟨k, text⟩ := e
    obtain ⟨u, hwrite, hone⟩ := (h k).write hw text
    obtain ⟨w', hall, hrest⟩ := ih (fun k' => hone.leads (h k')) hone.wellFormed
    refine ⟨w', ?_, fun p old hp => ?_, fun p hp => ?_, fun m s hm => ?_⟩
    · rw [writeAll, hwrite]
      exact hall
    · rw [hrest.held p _ (hone.held p old hp), textsTo, String.append_assoc]
      simp only [decide_eq_true_eq]
    · rw [hrest.elsewhere p hp, hone.elsewhere p (hp k)]
    · rw [hrest.streams m _ (hone.streams m s hm), textsTo, String.append_assoc]
      simp only [decide_eq_true_eq]

end Wiring

namespace Stage

/-- A redirection that a descriptor is bound to has opened a stream: one that keeps what the file
held, or one that leads to the file, which holds a text. -/
theorem Ready.opened {rs : List Redirection} {ends : Ends} (h : Ready rs defaults cwd w ends w')
    {k i : Nat} (hb : binding? rs.reverse k = some (.opened i)) :
    ∃ r path, rs[i]? = some r ∧ r.target = .file path ∧
      (r.operator = .read ∧
          (∃ text, w'.pool.streams[openedStream w.pool.next rs i]? = some ⟨.kept, text⟩) ∨
        (r.operator = .write ∨ r.operator = .append) ∧
          w'.pool.streams[openedStream w.pool.next rs i]? = some ⟨.file path cwd, ""⟩ ∧
            ∃ text, w'.volume.tree.item?.content? (Path.resolve path cwd) =
              some (.string text)) := by
  obtain ⟨r, path, hr, htarget⟩ := target_of_binding? hb
  obtain ⟨t, u, t', u', -, -, hturn⟩ := h.turns i r hr
  cases hturn with
  | copied ht =>
    rw [htarget] at ht
    cases ht
  | read hop ht hc hsame hkept => exact ⟨r, _, hr, ht, Or.inl ⟨hop, _, hkept⟩⟩
  | written hop ht htext hputs hleads hheld =>
    exact ⟨r, _, hr, ht, Or.inr ⟨hop, hleads, hheld⟩⟩

/-- A descriptor of a stage that is ready leads into the file that it is bound to for writing, or to
a stream that keeps what is written. -/
theorem Ready.leads {rs : List Redirection} {ends : Ends} (h : Ready rs defaults cwd w ends w')
    (hkept : ∀ k : Fin 3, ∃ text, w.pool.streams[defaults.get k]? = some ⟨.kept, text⟩)
    (k : Fin 3) : w'.Leads (ends.get k) (placeOf? cwd rs k) := by
  obtain ⟨b, hb, hstream⟩ := h.bound k
  rw [hstream, placeOf?, hb]
  cases b with
  | standard j =>
    obtain ⟨text, htext⟩ := hkept j
    exact .kept (h.streams _ _ htext)
  | opened i =>
    obtain ⟨r, path, hr, htarget, ⟨hop, text, hkept⟩ | ⟨hop, hleads, text, htext⟩⟩ := h.opened hb
    · dsimp only
      rw [hr, Option.bind_some, outputPlace?, hop]
      exact .kept hkept
    · dsimp only
      rw [hr, Option.bind_some, outputPlace?_of_output hop htarget]
      exact .file hleads htext

/-- Whatever stage is made ready, from three streams that keep what they get: its descriptors lead
where the rule of redirections says, each file is opened in its turn, and of all texts that are then
written to the descriptors, in any order, none is refused, and each goes behind what its file holds
or its stream keeps. -/
theorem ready_of_resolve (hw : w.volume.tree.WellFormed)
    (hkept : ∀ k : Fin 3, ∃ text, w.pool.streams[defaults.get k]? = some ⟨.kept, text⟩)
    (h : Stage.resolve command defaults cwd w = (.ok stage, w')) :
    ∃ parts, Parts.ofStage command = .ok parts ∧
      Ready parts.redirections defaults cwd w stage.ends w' ∧
        ∀ ws, ∃ w'', w'.writeAll stage.ends ws = (.ok (), w'') ∧
          w'.WroteAll stage.ends (fun k => placeOf? cwd parts.redirections k) ws w'' := by
  obtain ⟨parts, table, hparts, hconnect, rfl⟩ := resolve_eq_ok h
  have hready := ready_of_connectAll hw hconnect
  exact ⟨parts, hparts, hready, fun ws =>
    Wiring.writeAll_of_leads (hready.leads hkept) hready.wellFormed ws⟩

/-- Three empty streams, and a volume with nothing in it. -/
def blankWiring : Wiring := ⟨.unsaved (.empty 0) 0, ⟨List.replicate 3 ⟨.kept, ""⟩, []⟩⟩

/-- What goes to a file through two descriptors and two paths is there in the order in which it was
written. -/
theorem written_through_two_paths :
    ∃ stage w' w'',
      Stage.resolve "cat > f 2>&1 >> ./f" ⟨0, 1, 2⟩ "/" blankWiring = (.ok stage, w') ∧
        w'.writeAll stage.ends [(1, "a"), (2, "b"), (1, "c")] = (.ok (), w'') ∧
          w''.volume.tree.item?.content? ["f"] = some (.string "abc") := by
  have hparts : Parts.ofStage "cat > f 2>&1 >> ./f" = .ok ⟨["cat"],
      [⟨1, .write, .file "f"⟩, ⟨2, .write, .descriptor 1⟩, ⟨1, .append, .file "./f"⟩]⟩ := by
    decide +kernel
  obtain ⟨stage, w', hresolve, hempty⟩ : ∃ stage w',
      Stage.resolve "cat > f 2>&1 >> ./f" ⟨0, 1, 2⟩ "/" blankWiring = (.ok stage, w') ∧
        w'.volume.tree.item?.content? ["f"] = some (.string "") := by
    rw [Stage.resolve, hparts]
    exact ⟨_, _, rfl, rfl⟩
  have hkept : ∀ k : Fin 3, ∃ text,
      blankWiring.pool.streams[(⟨0, 1, 2⟩ : Ends).get k]? = some ⟨.kept, text⟩ := by
    intro k
    fin_cases k <;> exact ⟨"", rfl⟩
  obtain ⟨parts, hparts', -, hwrites⟩ :=
    ready_of_resolve (Tree.wellFormed_empty 0) hkept hresolve
  obtain rfl := Except.ok.inj (hparts.symm.trans hparts')
  obtain ⟨w'', hall, hwrote⟩ := hwrites [(1, "a"), (2, "b"), (1, "c")]
  exact ⟨stage, w', w'', hresolve, hall, hwrote.held ["f"] "" hempty⟩

end Stage

end TreeShell
