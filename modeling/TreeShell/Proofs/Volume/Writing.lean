import TreeShell.Proofs.Tree.Texts
import TreeShell.Proofs.Volume.Keeping

/-!
# Texts written into files

A write that is made leaves the file at its place with what was to be written, or with that behind
what the file held, and nothing else is changed. A text that is to go behind a text is never
refused.
-/

namespace TreeShell

namespace PathMap

/-- What the file at a place holds, if there is one. -/
def content? (m : PathMap) (p : Segments) : Option Content := (m p).bind Item.content

variable {m : PathMap} {p : Segments} {content new : Content} {append : Bool}

theorem content?_eq_some_iff :
    m.content? p = some content ↔ ∃ a, m p = some ⟨a, some content⟩ := by
  rw [content?, Option.bind_eq_some_iff]
  constructor
  · rintro ⟨⟨a, c⟩, hi, hc⟩
    obtain rfl : c = some content := hc
    exact ⟨a, hi⟩
  · rintro ⟨a, hi⟩
    exact ⟨_, hi, rfl⟩

theorem hasDirectory_iff_any : m.HasDirectory p ↔ (m p).any Item.isDirectory = true := by
  cases h : m p with
  | none => simp [HasDirectory, h]
  | some item => simp [HasDirectory, h]

/-- What a write makes of a file is what is written, or that behind what the file held. -/
theorem written_eq (o : Option Item) :
    written content append o =
      match append, o.bind Item.content with
      | true, some old => old.join content
      | _, _ => .ok content := by
  cases o with
  | none => cases append <;> rfl
  | some item =>
    obtain ⟨a, old⟩ := item
    cases old with
    | none => cases append <;> rfl
    | some old => cases append <;> rfl

end PathMap

/-- Above every file there is a directory. -/
theorem Tree.hasParent_of_content? {t : Tree} (h : t.WellFormed) {p : Segments} {content : Content}
    (hp : t.item?.content? p = some content) : t.item?.HasParent p := by
  obtain ⟨a, ha⟩ := PathMap.content?_eq_some_iff.mp hp
  have hs := h.standing p
  cases hs with
  | root =>
    obtain ⟨item, hi, hdir⟩ := hasDirectory_iff.mpr ⟨_, h.directoryAt_root⟩
    rw [ha] at hi
    cases hi
    cases hdir
  | orphan hno =>
    rw [item?_of_orphan hno] at ha
    cases ha
  | free hd hn => exact hasParent_of_directory hd
  | entry hd hn hi => exact hasParent_of_directory hd

namespace Volume

/-- A volume comes to another that has a file at a place with some content, and is the same
elsewhere. -/
structure Puts (v : Volume) (p : Segments) (content : Content) (v' : Volume) : Prop where
  wellFormed : v'.tree.WellFormed
  content : v'.tree.item?.content? p = some content
  elsewhere : ∀ q, q ≠ p → v'.tree.item? q = v.tree.item? q

variable {v v' : Volume} {path cwd text old : String} {content new : Content} {append : Bool}

/-- What is elsewhere is held as before. -/
theorem Puts.content?_of_ne {p q : Segments} (h : v.Puts p content v') (hq : q ≠ p) :
    v'.tree.item?.content? q = v.tree.item?.content? q := by
  rw [PathMap.content?, h.elsewhere q hq, PathMap.content?]

/-- Of two writes to one place the second tells what is there. -/
theorem Puts.trans {v'' : Volume} {p : Segments} (h : v.Puts p content v')
    (h' : v'.Puts p new v'') : v.Puts p new v'' :=
  ⟨h'.wellFormed, h'.content, fun q hq => (h'.elsewhere q hq).trans (h.elsewhere q hq)⟩

/-- A write that is made puts into its place what it makes of the file there. -/
theorem puts_of_perform (h : v.tree.WellFormed)
    (hv : v.perform cwd (.write path content append) = (.ok (), v')) :
    ∃ new, PathMap.written content append (v.tree.item? (Path.resolve path cwd)) = .ok new ∧
      v.Puts (Path.resolve path cwd) new v' := by
  have hp := performed h cwd (.write path content append)
  rw [hv] at hp
  cases hp with
  | idle _ hidle => exact hidle.elim
  | @saved t hpermitted _ hw hm =>
    obtain ⟨new, hnew⟩ := hpermitted.2.2
    have hput : t.item? = v.tree.item?.put (Path.resolve path cwd)
        ⟨PathMap.writtenAttributes v.clock (v.tree.item? (Path.resolve path cwd)), some new⟩ := by
      rw [hm, Edit.effect, PathMap.write, hnew]
    refine ⟨new, hnew, ?_, ?_, fun q hq => ?_⟩
    · rw [tree_save]
      exact hw
    · rw [tree_save, hput, PathMap.content?, PathMap.put, if_pos rfl]
      rfl
    · rw [tree_save, hput, PathMap.put, if_neg hq]

/-- To open a file for writing is to put an empty text there, and to open it for writing at the end
to leave the text that is there, or to make an empty file. -/
theorem puts_of_open (h : v.tree.WellFormed)
    (hv : v.perform cwd (.write path (.string "") append) = (.ok (), v')) :
    ∃ text, v.Puts (Path.resolve path cwd) (.string text) v' ∧
      if append then
        (v.tree.item?.content? (Path.resolve path cwd)).getD (.string "") = .string text
      else text = "" := by
  obtain ⟨new, hnew, hputs⟩ := puts_of_perform h hv
  rw [PathMap.written_eq, ← PathMap.content?] at hnew
  cases append with
  | false =>
    cases hnew
    exact ⟨"", hputs, rfl⟩
  | true =>
    cases hold : v.tree.item?.content? (Path.resolve path cwd) with
    | none =>
      rw [hold] at hnew
      cases hnew
      exact ⟨"", hputs, rfl⟩
    | some old =>
      rw [hold] at hnew
      cases old with
      | string s =>
        cases hnew
        rw [String.append_empty] at hputs
        exact ⟨s, hputs, rfl⟩
      | _ => cases hnew

/-- A write that is permitted is made. -/
theorem exists_puts (h : v.tree.WellFormed)
    (hparent : v.tree.item?.HasParent (Path.resolve path cwd))
    (hfile : ¬ v.tree.item?.HasDirectory (Path.resolve path cwd))
    (hnew : PathMap.written content append (v.tree.item? (Path.resolve path cwd)) = .ok new) :
    ∃ v', v.perform cwd (.write path content append) = (.ok (), v') ∧
      v.Puts (Path.resolve path cwd) new v' := by
  have hpermitted : (Edit.write path content append).Permitted cwd v.tree.item? :=
    ⟨hparent, hfile, new, hnew⟩
  have hp := performed h cwd (.write path content append)
  have hok : ∃ v', v.perform cwd (.write path content append) = (.ok (), v') := by
    generalize v.perform cwd (.write path content append) = result at hp
    cases hp with
    | saved => exact ⟨_, rfl⟩
    | idle => exact ⟨_, rfl⟩
    | refused hno => exact absurd hpermitted hno
  obtain ⟨v', hv⟩ := hok
  obtain ⟨new', hnew', hputs⟩ := puts_of_perform h hv
  rw [hnew] at hnew'
  cases hnew'
  exact ⟨v', hv, hputs⟩

/-- A text that is to go behind a text goes there. -/
theorem perform_append_text (h : v.tree.WellFormed)
    (hold : v.tree.item?.content? (Path.resolve path cwd) = some (.string old)) (text : String) :
    ∃ v', v.perform cwd (.write path (.string text) true) = (.ok (), v') ∧
      v.Puts (Path.resolve path cwd) (.string (old ++ text)) v' := by
  obtain ⟨a, ha⟩ := PathMap.content?_eq_some_iff.mp hold
  refine exists_puts h (Tree.hasParent_of_content? h hold) ?_ (by rw [ha, PathMap.written_text])
  rw [PathMap.hasDirectory_iff_of_eq ha]
  exact Bool.false_ne_true

end Volume

end TreeShell
