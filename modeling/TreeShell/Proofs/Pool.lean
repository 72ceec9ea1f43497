import Mathlib.Data.List.Basic
import TreeShell.Stream

/-!
# Streams that keep their way

Whatever is done with a pool, a stream that is there leads where it led, and so does every chain of
streams with an end. What is written to such a chain is heard at its end.
-/

namespace TreeShell.Pool

variable {p q r : Pool} {n : Nat}

/-! ## Pools that come from others -/

/-- A pool comes to another: no stream and no sink gets lost, and the streams lead where they
led. -/
structure GrowsTo (p q : Pool) : Prop where
  streams : ∀ (n : Nat) (s : Stream), p.streams[n]? = some s →
    ∃ s' : Stream, q.streams[n]? = some s' ∧ s'.destination = s.destination
  sinks : p.sinks.length ≤ q.sinks.length

namespace GrowsTo

/-- A pool has grown from itself. -/
theorem refl (p : Pool) : p.GrowsTo p := ⟨fun _ s h => ⟨s, h, rfl⟩, Nat.le_refl _⟩

/-- A pool that has grown twice has grown. -/
theorem trans (h : p.GrowsTo q) (h' : q.GrowsTo r) : p.GrowsTo r where
  streams n s hs := by
    obtain ⟨s', hs', hd⟩ := h.streams n s hs
    obtain ⟨s'', hs'', hd'⟩ := h'.streams n s' hs'
    exact ⟨s'', hs'', hd'.trans hd⟩
  sinks := Nat.le_trans h.sinks h'.sinks

/-- No stream is lost while a pool grows. -/
theorem next_le (h : p.GrowsTo q) : p.next ≤ q.next := by
  by_contra hlt
  have hq : q.next < p.streams.length := Nat.lt_of_not_le hlt
  obtain ⟨s', hs', -⟩ := h.streams q.next _ (List.getElem?_eq_getElem hq)
  have hnone : q.streams[q.next]? = none := List.getElem?_eq_none (Nat.le_refl _)
  rw [hnone] at hs'
  cases hs'

end GrowsTo

/-- A pool with a stream more has grown. -/
theorem growsTo_append (p : Pool) (s : Stream) :
    p.GrowsTo { p with streams := p.streams ++ [s] } where
  streams n s' hs := by
    have hn : n < p.streams.length := (List.getElem?_eq_some_iff.mp hs).1
    exact ⟨s', (List.getElem?_append_left hn).trans hs, rfl⟩
  sinks := Nat.le_refl _

/-- A pool with a stream that is changed, but leads where it led, has grown. -/
theorem growsTo_modify (p : Pool) (n : Nat) {f : Stream → Stream}
    (hf : ∀ s, (f s).destination = s.destination) :
    p.GrowsTo { p with streams := p.streams.modify n f } where
  streams k s hs := by
    refine ⟨if n = k then f s else s, ?_, ?_⟩
    · rw [List.getElem?_modify, hs]
      rfl
    · split
      · exact hf s
      · rfl
  sinks := Nat.le_refl _

/-- A pool grows by a new stream. -/
theorem growsTo_add (p : Pool) (destination : Destination) : p.GrowsTo (p.add destination).1 :=
  p.growsTo_append _

/-- A pool grows by a new stream that keeps a text. -/
theorem growsTo_addKeeping (p : Pool) (text : String) : p.GrowsTo (p.addKeeping text).1 :=
  p.growsTo_append _

/-- What is delivered to a stream stays in it. -/
theorem growsTo_deliver (p : Pool) (n : Nat) (text : String) : p.GrowsTo (p.deliver n text) where
  streams _ s hs := ⟨s, hs, rfl⟩
  sinks := by
    unfold deliver
    exact Nat.le_of_eq (List.length_modify _ _ _).symm

/-- To write moves no stream. -/
theorem growsTo_write (p : Pool) (n : Nat) (text : String) : p.GrowsTo (p.write n text) := by
  unfold write
  split
  · exact p.growsTo_modify _ fun _ => rfl
  · exact p.growsTo_deliver _ text
  · exact .refl p
  · exact .refl p

/-- To read moves no stream. -/
theorem growsTo_read (p : Pool) (n : Nat) : p.GrowsTo (p.read n).2 := by
  unfold read
  split
  · exact .refl p
  · exact p.growsTo_modify n fun _ => rfl

/-! ## Chains -/

/-- A chain with an end has that end later, too; more streams may be followed then. -/
theorem GrowsTo.route_eq (h : p.GrowsTo q) {fuel fuel' : Nat} (hle : fuel ≤ fuel')
    (hn : p.route fuel n ≠ .nowhere) : q.route fuel' n = p.route fuel n := by
  induction fuel generalizing fuel' n with
  | zero => exact absurd rfl hn
  | succ fuel ih =>
    obtain ⟨k, rfl⟩ : ∃ k, fuel' = k + 1 := ⟨fuel' - 1, by omega⟩
    rw [route] at hn ⊢
    rw [route]
    cases hs : p.streams[n]? with
    | none =>
      rw [hs] at hn
      exact absurd rfl hn
    | some s =>
      obtain ⟨s', hs', hd⟩ := h.streams n s hs
      rw [hs] at hn
      rw [hs']
      dsimp only at hn ⊢
      rw [hd]
      cases hdest : s.destination with
      | stream m =>
        rw [hdest] at hn
        exact ih (by omega) hn
      | _ => rfl

/-- A stream that leads somewhere leads there for good. -/
theorem GrowsTo.endOf_eq (h : p.GrowsTo q) (hn : p.endOf n ≠ .nowhere) : q.endOf n = p.endOf n :=
  h.route_eq h.next_le hn

/-- A stream that leads to another has its end. -/
theorem endOf_add_stream (hn : p.endOf n ≠ .nowhere) :
    (p.add (.stream n)).1.endOf p.next = p.endOf n := by
  have hlast : (p.add (.stream n)).1.streams[p.next]? = some ⟨.stream n, ""⟩ := by
    simp [add, next]
  have hnext : (p.add (.stream n)).1.next = p.next + 1 := by simp [add, next]
  rw [endOf, hnext, route, hlast]
  exact (p.growsTo_add _).route_eq (Nat.le_refl _) hn

/-- A stream that keeps what it gets, or leads to a file, is followed no further. -/
theorem endOf_of_stream {s : Stream} (h : p.streams[n]? = some s) :
    (s.destination = .kept → p.endOf n = .keeper n) ∧
      ∀ path cwd, s.destination = .file path cwd → p.endOf n = .file path cwd := by
  obtain ⟨fuel, hfuel⟩ : ∃ fuel, p.next = fuel + 1 :=
    ⟨p.next - 1, by have := (List.getElem?_eq_some_iff.mp h).1; rw [Pool.next]; omega⟩
  rw [endOf, hfuel, route, h]
  refine ⟨fun hd => ?_, fun path cwd hd => ?_⟩
  · dsimp only
    rw [hd]
  · dsimp only
    rw [hd]

/-! ## What is heard at an end -/

/-- Whether a text that comes to an end stays there: with a stream that keeps it, or with a sink. -/
def Takes (p : Pool) : End → Prop
  | .keeper n => n < p.streams.length
  | .sink n => n < p.sinks.length
  | .file .. | .nowhere => False

/-- All that has come to an end and has not been read there. -/
def heard (p : Pool) : End → String
  | .keeper n => (p.streams[n]?.map Stream.kept).getD ""
  | .sink n => String.join ((p.sinks[n]?.map Sink.received).getD [])
  | .file .. | .nowhere => ""

/-- What takes a text is somewhere. -/
theorem Takes.ne_nowhere {e : End} (h : p.Takes e) : e ≠ .nowhere := by
  rintro rfl
  exact h

/-- What always takes a text is no file. -/
theorem Takes.ne_file {e : End} (h : p.Takes e) (path cwd : String) : e ≠ .file path cwd := by
  rintro rfl
  exact h

/-- An end that takes what is written takes it for good. -/
theorem GrowsTo.takes (h : p.GrowsTo q) {e : End} (he : p.Takes e) : q.Takes e := by
  cases e with
  | keeper n => exact Nat.lt_of_lt_of_le he h.next_le
  | sink n => exact Nat.lt_of_lt_of_le he h.sinks
  | file path cwd => exact he
  | nowhere => exact he

/-- A text that is written to a chain is heard at its end, after all that was heard there before. -/
theorem heard_write {text : String} (h : p.Takes (p.endOf n)) :
    (p.write n text).heard (p.endOf n) = p.heard (p.endOf n) ++ text := by
  rw [write]
  cases he : p.endOf n with
  | keeper k =>
    rw [he] at h
    have hk : k < p.streams.length := h
    simp [heard, keep, hk]
  | sink k =>
    rw [he] at h
    have hk : k < p.sinks.length := h
    simp [heard, deliver, hk]
  | file path cwd =>
    rw [he] at h
    exact h.elim
  | nowhere =>
    rw [he] at h
    exact h.elim

end TreeShell.Pool
