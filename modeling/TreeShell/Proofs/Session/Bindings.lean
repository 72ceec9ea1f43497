import Mathlib.Data.Fintype.Basic
import Mathlib.Data.List.Induction
import Mathlib.Tactic.FinCases
import TreeShell.Proofs.Session.Stages
import TreeShell.Proofs.Volume.Writing

/-!
# What redirections bind

The redirections of a stage are applied in the order in which they are written. The last one for a
descriptor tells what the descriptor is bound to: to the stream that is opened for a file, or to
what another descriptor was bound to by the redirections before. Every file is opened in its turn,
and no stream that is there is changed by what is opened later.
-/

namespace TreeShell

/-- The stream of a descriptor. -/
def Ends.get (ends : Ends) : Fin 3 → Nat
  | 0 => ends.input
  | 1 => ends.output
  | 2 => ends.errors

/-- What a descriptor is bound to: one of the streams that a stage starts with, or the stream that
the redirection at a position opens. -/
inductive Binding where
  | standard (k : Fin 3)
  | opened (position : Nat)
  deriving DecidableEq, Repr

namespace Redirection

/-- Whether a redirection opens a file. -/
def opensFile (r : Redirection) : Bool :=
  match r.target with
  | .file _ => true
  | .descriptor _ => false

/-- What a descriptor is bound to by redirections of which the last one comes first. -/
def binding? : List Redirection → Nat → Option Binding
  | [], k => if h : k < 3 then some (.standard ⟨k, h⟩) else none
  | r :: earlier, k =>
    if k = r.descriptor then
      match r.target with
      | .file _ => some (.opened earlier.length)
      | .descriptor m => binding? earlier m
    else binding? earlier k

/-- The stream that the redirection at a position opens, where `first` is the next stream before any
of the redirections is applied. -/
def openedStream (first : Nat) (rs : List Redirection) (position : Nat) : Nat :=
  first + (rs.take position).countP opensFile

end Redirection

/-- The stream that something is bound to. -/
def Binding.stream (defaults : Ends) (first : Nat) (rs : List Redirection) : Binding → Nat
  | .standard k => defaults.get k
  | .opened position => Redirection.openedStream first rs position

namespace Redirection

variable {r : Redirection} {rs : List Redirection} {table : Table} {cwd : String} {w w' : Wiring}
  {defaults : Ends} {n : Nat}

/-- A descriptor is bound to the redirection at a position only if that opens a file. -/
theorem target_of_binding? {k i : Nat} (h : binding? rs.reverse k = some (.opened i)) :
    ∃ r path, rs[i]? = some r ∧ r.target = .file path := by
  induction rs using List.reverseRecOn generalizing k with
  | nil =>
    rw [List.reverse_nil, binding?] at h
    split at h
    · cases h
    · cases h
  | append_singleton rs r ih =>
    have hlift : (∃ r path, rs[i]? = some r ∧ r.target = .file path) →
        ∃ r' path, (rs ++ [r])[i]? = some r' ∧ r'.target = .file path := by
      rintro ⟨r', path, hr, ht⟩
      exact ⟨r', path, List.getElem?_append_left (List.getElem?_eq_some_iff.mp hr).1 ▸ hr, ht⟩
    rw [List.reverse_concat, binding?] at h
    split at h
    · split at h
      · next path ht =>
        cases h
        refine ⟨r, path, ?_, ht⟩
        rw [List.length_reverse, List.getElem?_concat_length]
      · exact hlift (ih h)
    · exact hlift (ih h)

/-- Which stream an opening makes is told by the redirections before it. -/
theorem openedStream_append {first i : Nat} (hi : i ≤ rs.length) (rs' : List Redirection) :
    openedStream first (rs ++ rs') i = openedStream first rs i := by
  rw [openedStream, List.take_append_of_le_length hi, openedStream]

/-! ## One redirection -/

/-- What is done for a redirection that can be applied: it takes the stream of another descriptor,
opens a stream with what a file holds, or opens a stream that leads to a file. -/
inductive Connected (r : Redirection) (table : Table) (cwd : String) (w : Wiring) :
    Nat → Wiring → Prop where
  | copied {m n : Nat} (ht : r.target = .descriptor m) (hn : table.get? m = some n) :
    Connected r table cwd w n w
  | read {path : String} {content : Content} (hop : r.operator = .read)
    (ht : r.target = .file path)
    (hc : w.volume.tree.item?.content? (Path.resolve path cwd) = some content) :
    Connected r table cwd w w.pool.next (w.addKeeping content.plain).1
  | written {path : String} {v : Volume} (hop : r.operator = .write ∨ r.operator = .append)
    (ht : r.target = .file path)
    (hv : w.volume.perform cwd (.write path (.string "") (r.operator = .append)) = (.ok (), v)) :
    Connected r table cwd w w.pool.next (Wiring.add { w with volume := v } (.file path cwd)).1

theorem connected_of_openFile {path : String} (ht : r.target = .file path)
    (h : r.openFile path cwd w = (.ok n, w')) : r.Connected table cwd w n w' := by
  rcases r.operator_cases with hop | hop | hop
  · rw [openFile, hop] at h
    cases h
  · rw [openFile, hop] at h
    dsimp only at h
    split at h
    · cases h
    · next content hc =>
      cases h
      exact .read hop ht (PathMap.content?_eq_some_iff.mpr (Tree.content_eq_ok_iff.mp hc))
  · rw [openFile_of_output hop] at h
    split at h
    · cases h
    · next hv =>
      cases h
      exact .written hop ht hv

/-- A redirection that is connected is one of the three kinds, with what it did. -/
theorem connected (h : r.connect table cwd w = (.ok n, w')) : r.Connected table cwd w n w' := by
  unfold connect at h
  split at h
  · cases h
  · next hd _ =>
    split at h
    · cases h
    · next hn =>
      cases h
      exact .copied hd hn
  · next hf _ => exact connected_of_openFile hf h

namespace Connected

/-- Streams that are there stay as they are. -/
theorem streams (h : r.Connected table cwd w n w') :
    ∃ rest, w'.pool.streams = w.pool.streams ++ rest ∧ rest.length = [r].countP opensFile := by
  cases h with
  | copied ht => exact ⟨[], by simp, by simp [opensFile, ht]⟩
  | read hop ht hc => exact ⟨_, rfl, by simp [opensFile, ht]⟩
  | written hop ht hv => exact ⟨_, rfl, by simp [opensFile, ht]⟩

/-- A redirection keeps a tree well-formed. -/
theorem wellFormed (h : r.Connected table cwd w n w') (hw : w.volume.tree.WellFormed) :
    w'.volume.tree.WellFormed := by
  cases h with
  | copied => exact hw
  | read => exact hw
  | written hop ht hv =>
    obtain ⟨text, hputs, -⟩ := Volume.puts_of_open hw hv
    exact hputs.wellFormed

/-- A file that holds a text still does. -/
theorem text (h : r.Connected table cwd w n w') (hw : w.volume.tree.WellFormed) {p : Segments}
    (hp : ∃ text, w.volume.tree.item?.content? p = some (.string text)) :
    ∃ text, w'.volume.tree.item?.content? p = some (.string text) := by
  cases h with
  | copied => exact hp
  | read => exact hp
  | @written path v hop ht hv =>
    obtain ⟨text, hputs, -⟩ := Volume.puts_of_open hw hv
    by_cases he : p = Path.resolve path cwd
    · exact ⟨text, he ▸ hputs.content⟩
    · obtain ⟨old, hold⟩ := hp
      exact ⟨old, (hputs.content?_of_ne he).trans hold⟩

end Connected

/-! ## All redirections -/

/-- Redirections are connected one after another. -/
theorem connectAll_append (before after : List Redirection) :
    connectAll cwd (before ++ after) table w =
      match connectAll cwd before table w with
      | (.ok table, w) => connectAll cwd after table w
      | (.error e, w) => (.error e, w) := by
  induction before generalizing table w with
  | nil => rfl
  | cons r before ih =>
    rw [List.cons_append, connectAll, connectAll]
    split
    · rfl
    · exact ih

/-- Where all redirections can be applied, so can the first of them, and then the rest. -/
theorem connectAll_eq_ok_append {before after : List Redirection} {table' : Table}
    (h : connectAll cwd (before ++ after) table w = (.ok table', w')) :
    ∃ t u, connectAll cwd before table w = (.ok t, u) ∧
      connectAll cwd after t u = (.ok table', w') := by
  rw [connectAll_append] at h
  split at h
  · next t u hbefore => exact ⟨t, u, hbefore, h⟩
  · cases h

theorem connectAll_eq_ok_singleton {table' : Table}
    (h : connectAll cwd [r] table w = (.ok table', w')) :
    ∃ n, r.Connected table cwd w n w' ∧ table' = table.set r.descriptor n := by
  rw [connectAll] at h
  split at h
  · cases h
  · next hr =>
    cases h
    exact ⟨_, connected hr, rfl⟩

/-- What holds when redirections have been applied. -/
structure Applied (rs : List Redirection) (defaults : Ends) (w : Wiring) (table : Table)
    (w' : Wiring) : Prop where
  wellFormed : w'.volume.tree.WellFormed
  /-- Streams that were there are as they were; a stream was opened for every file. -/
  streams : ∃ rest, w'.pool.streams = w.pool.streams ++ rest ∧ rest.length = rs.countP opensFile
  /-- Every descriptor leads to the stream that it is bound to. -/
  bound : ∀ k, table.get? k =
    (binding? rs.reverse k).map (Binding.stream defaults w.pool.next rs)

/-- Before any redirection the descriptors lead to the streams that a stage starts with. -/
theorem get?_ofEnds (defaults : Ends) (first k : Nat) :
    (Table.ofEnds defaults).get? k = (binding? [] k).map (Binding.stream defaults first []) := by
  have hset : Table.ofEnds defaults =
      ((OrderedMap.empty.set 0 defaults.input).set 1 defaults.output).set 2 defaults.errors := rfl
  rw [hset, OrderedMap.get?_set, OrderedMap.get?_set, OrderedMap.get?_set, binding?]
  match k with
  | 0 | 1 | 2 => rfl
  | k + 3 =>
    rw [dif_neg (by omega), if_neg (by omega), if_neg (by omega), if_neg (by omega)]
    rfl

/-- There are as many new streams as redirections that open one. -/
theorem Applied.next {table : Table} (h : Applied rs defaults w table w') :
    w'.pool.next = openedStream w.pool.next rs rs.length := by
  obtain ⟨rest, hstreams, hlength⟩ := h.streams
  rw [Pool.next, hstreams, List.length_append, hlength, openedStream, List.take_length, Pool.next]

/-- Later redirections do not move the stream of a binding. -/
theorem stream_append {k : Nat} {b : Binding} (h : binding? rs.reverse k = some b) (first : Nat)
    (rs' : List Redirection) :
    b.stream defaults first (rs ++ rs') = b.stream defaults first rs := by
  cases b with
  | standard k => rfl
  | opened i =>
    obtain ⟨r, path, hr, -⟩ := target_of_binding? h
    exact openedStream_append (Nat.le_of_lt (List.getElem?_eq_some_iff.mp hr).1) rs'

/-- One more redirection binds its own descriptor anew. -/
theorem Applied.snoc {table : Table} {w'' : Wiring} (h : Applied rs defaults w table w')
    (hr : r.Connected table cwd w' n w'') :
    Applied (rs ++ [r]) defaults w (table.set r.descriptor n) w'' := by
  refine ⟨hr.wellFormed h.wellFormed, ?_, fun k => ?_⟩
  · obtain ⟨rest, hstreams, hlength⟩ := h.streams
    obtain ⟨rest', hstreams', hlength'⟩ := hr.streams
    refine ⟨rest ++ rest', ?_, ?_⟩
    · rw [hstreams', hstreams, List.append_assoc]
    · rw [List.length_append, hlength, hlength', List.countP_append]
  · have hbefore : ∀ k, table.get? k =
        (binding? rs.reverse k).map (Binding.stream defaults w.pool.next (rs ++ [r])) := by
      intro k
      rw [h.bound k]
      refine Option.map_congr fun b hb => ?_
      exact (stream_append hb _ _).symm
    have hnext : openedStream w.pool.next (rs ++ [r]) rs.reverse.length = w'.pool.next := by
      rw [List.length_reverse, openedStream_append (Nat.le_refl _), h.next]
    rw [OrderedMap.get?_set, List.reverse_concat, binding?]
    split
    · cases hr with
      | copied ht hn =>
        rw [ht, ← hn]
        exact hbefore _
      | read hop ht hc =>
        rw [ht, Option.map_some, Binding.stream, hnext]
      | written hop ht hv =>
        rw [ht, Option.map_some, Binding.stream, hnext]
    · exact hbefore k

/-- Redirections that are connected have been applied, one after another. -/
theorem applied_of_connectAll {table : Table} (hw : w.volume.tree.WellFormed)
    (h : connectAll cwd rs (Table.ofEnds defaults) w = (.ok table, w')) :
    Applied rs defaults w table w' := by
  induction rs using List.reverseRecOn generalizing table w' with
  | nil =>
    cases h
    exact ⟨hw, ⟨[], by simp, rfl⟩, get?_ofEnds defaults _⟩
  | append_singleton rs r ih =>
    obtain ⟨t, u, hbefore, hlast⟩ := connectAll_eq_ok_append h
    obtain ⟨n, hr, rfl⟩ := connectAll_eq_ok_singleton hlast
    exact (ih hbefore).snoc hr

end Redirection

end TreeShell
