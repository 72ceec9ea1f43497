import TreeShell.Proofs.Tree.Outcomes
import TreeShell.Proofs.Volume.Requests

/-!
# Files that hold texts

A file holds a text unless it was taken over with something else from a record. No text can be put
behind such a thing, and that is the only thing about what files hold that a write of a text can be
refused for. Where all files hold texts, and only texts are written, all files still hold texts.
-/

namespace TreeShell

/-- All that stands at the places of a map has some trait. -/
def PathMap.Every (trait : Item → Prop) (m : PathMap) : Prop :=
  ∀ p item, m p = some item → trait item

/-- All that the files of a map hold is of some kind. -/
def PathMap.Holds (kind : Content → Prop) (m : PathMap) : Prop :=
  ∀ p a content, m p = some ⟨a, some content⟩ → kind content

/-- All files of a map hold texts. -/
def PathMap.HoldsTexts (m : PathMap) : Prop :=
  ∀ p a content, m p = some ⟨a, some content⟩ → ∃ text, content = .string text

/-- Whether what an edit writes into a file, if it does, is a text. -/
def Edit.WritesText : Edit → Prop
  | .write _ content _ => ∃ text, content = .string text
  | _ => True

/-- Whether what an edit writes into a file, if it does, is a text, or what some file of a map holds
put in place of all that was there. -/
def Edit.WritesKnown (m : PathMap) : Edit → Prop
  | .write _ content append =>
    (∃ text, content = .string text) ∨ append = false ∧ ∃ p a, m p = some ⟨a, some content⟩
  | _ => True

/-- Whatever an edit puts at a place has some trait, if what was there has it. -/
def Edit.Puts (trait : Item → Prop) (now : Int) : Edit → Prop
  | .write _ content append =>
    ∀ o new, (∀ item, o = some item → trait item) →
      PathMap.written content append o = .ok new → trait ⟨PathMap.writtenAttributes now o, some new⟩
  | .createDirectory _ | .makeDirectories _ => trait ⟨.ofDirectory now, none⟩
  | .touch _ =>
    trait ⟨.ofFile now, some (.string "")⟩ ∧ ∀ item, trait item → trait (item.modified now)
  | .delete .. | .move .. => True

namespace PathMap

variable {kind : Content → Prop} {m : PathMap} {now : Int} {p : Segments}

/-- What is there after a text was written is a text. -/
theorem exists_text_of_written {text : String} {append : Bool} {o : Option Item} {new : Content}
    (h : written (.string text) append o = .ok new) : ∃ s, new = .string s := by
  cases o with
  | none => exact ⟨text, (Except.ok.inj h).symm⟩
  | some item =>
    obtain ⟨a, content⟩ := item
    cases content with
    | none => exact ⟨text, (Except.ok.inj h).symm⟩
    | some old =>
      cases append with
      | false => exact ⟨text, (Except.ok.inj h).symm⟩
      | true =>
        cases old with
        | string s => exact ⟨s ++ text, (Except.ok.inj h).symm⟩
        | _ => cases h

namespace Every

variable {trait : Item → Prop}

/-- A trait of all items stays one when an item that has it is put somewhere. -/
theorem put (h : m.Every trait) {item : Item} (hi : trait item) : (m.put p item).Every trait := by
  intro q other hq
  rw [PathMap.put] at hq
  split at hq
  · cases hq
    exact hi
  · exact h q other hq

/-- An edit that puts nothing else at a place leaves a map that has the trait all over. -/
theorem effect (h : m.Every trait) {e : Edit} (he : e.Puts trait now) (cwd : String) :
    (e.effect now cwd m).Every trait := by
  cases e with
  | write path content append =>
    rw [Edit.effect, PathMap.write]
    split
    · next new hnew => exact h.put (he _ new (fun item hi => h _ item hi) hnew)
    · exact h
  | createDirectory path => exact h.put he
  | makeDirectories path =>
    intro q item hq
    rw [Edit.effect, fill] at hq
    split at hq
    · cases hq
      exact he
    · exact h q item hq
  | touch path =>
    rw [Edit.effect, PathMap.touch]
    split
    · next item hi => exact h.put (he.2 item (h _ item hi))
    · exact h.put he.1
  | delete path recursive =>
    intro q item hq
    rw [Edit.effect, prune] at hq
    split at hq
    · cases hq
    · exact h q item hq
  | move source destination =>
    rw [Edit.effect]
    split
    · exact h
    · intro q item hq
      rw [relocate] at hq
      split at hq
      · exact h _ item hq
      · split at hq
        · cases hq
        · exact h q item hq

end Every

/-- A kind of contents is a trait of the items. -/
theorem holds_iff_every :
    m.Holds kind ↔ m.Every fun item => ∀ content, item.content = some content → kind content := by
  constructor
  · rintro h p ⟨a, content⟩ hp new rfl
    exact h p a new hp
  · exact fun h p a content hp => h p _ hp content rfl

/-- An edit that writes nothing but texts and what files hold leaves files of a kind that texts are
of. -/
theorem Holds.effect (h : m.Holds kind) (htext : ∀ text, kind (.string text)) {e : Edit}
    (he : e.WritesKnown m) (cwd : String) : (e.effect now cwd m).Holds kind := by
  rw [holds_iff_every]
  refine (holds_iff_every.mp h).effect ?_ cwd
  cases e with
  | write path content append =>
    intro o new ho hnew c hc
    cases hc
    rcases he with ⟨text, rfl⟩ | ⟨rfl, q, a, hq⟩
    · obtain ⟨s, rfl⟩ := exists_text_of_written hnew
      exact htext s
    · rw [written_over] at hnew
      cases hnew
      exact h q a content hq
  | createDirectory path => exact fun content hc => by cases hc
  | makeDirectories path => exact fun content hc => by cases hc
  | touch path =>
    refine ⟨fun content hc => ?_, fun item hi => hi⟩
    cases hc
    exact htext ""
  | delete path recursive => trivial
  | move source destination => trivial

end PathMap

/-- An edit that writes nothing but texts writes nothing but texts and what files hold. -/
theorem Edit.WritesText.known {e : Edit} (h : e.WritesText) (m : PathMap) : e.WritesKnown m := by
  cases e with
  | write path content append => exact Or.inl h
  | _ => trivial

namespace Tree

variable {t : Tree} {now : Int} {path cwd : String}

/-- There is a file at a path, and what it holds is no text. -/
def HoldsNoText (t : Tree) (path cwd : String) : Prop :=
  ∃ content, t.content path cwd = .ok content ∧ ∀ text, content ≠ .string text

/-- The content at a path is that of the file there. -/
theorem content_eq_ok_iff {content : Content} :
    t.content path cwd = .ok content ↔
      ∃ a, t.item? (Path.resolve path cwd) = some ⟨a, some content⟩ := by
  rw [item?_eq_map_lookup, Tree.content]
  cases t.lookup (Path.resolve path cwd) with
  | none => simp
  | some e =>
    obtain ⟨number, i⟩ := e
    cases hbody : i.body with
    | file c => simp [hbody, Inode.item]
    | directory children => simp [hbody, Inode.item]

/-- What a file holds is told whatever it is. -/
theorem content_ne_content_error {e : ContentError} : t.content path cwd ≠ .error (.content e) := by
  unfold Tree.content
  split
  · exact fun h => by cases h
  · split
    · exact fun h => by cases h
    · exact fun h => by cases h

/-- Where all files hold texts, none holds anything else. -/
theorem not_holdsNoText (h : t.item?.HoldsTexts) : ¬ t.HoldsNoText path cwd := by
  rintro ⟨content, hc, hno⟩
  obtain ⟨a, ha⟩ := content_eq_ok_iff.mp hc
  obtain ⟨text, ht⟩ := h _ a content ha
  exact hno text ht

/-- The map of the tree that an edit leaves is the one before, or the one that the edit should
leave. -/
theorem item?_perform (h : t.WellFormed) (e : Edit) :
    (e.perform now cwd t).2.item? = t.item? ∨
      (e.perform now cwd t).2.item? = e.effect now cwd t.item? := by
  have ho := outcome_perform now cwd h e
  generalize e.perform now cwd t = change at ho
  cases ho with
  | refused hp hr => exact Or.inl rfl
  | unchanged hp hi => exact Or.inl rfl
  | changed hp hi hw hm => exact Or.inr (funext hm)

/-- An edit leaves a tree whose nodes all have a trait that all it puts at a place has. -/
theorem every_perform {trait : Item → Prop} (h : t.WellFormed) (ht : t.item?.Every trait) {e : Edit}
    (he : e.Puts trait now) : (e.perform now cwd t).2.item?.Every trait := by
  rcases item?_perform h e with hsame | heffect
  · rw [hsame]
    exact ht
  · rw [heffect]
    exact ht.effect he cwd

/-- An edit that writes nothing but texts and what files hold leaves a tree whose files are of a
kind that texts are of. -/
theorem holds_perform {kind : Content → Prop} (h : t.WellFormed) (ht : t.item?.Holds kind)
    (htext : ∀ text, kind (.string text)) {e : Edit} (he : e.WritesKnown t.item?) :
    (e.perform now cwd t).2.item?.Holds kind := by
  rcases item?_perform h e with hsame | heffect
  · rw [hsame]
    exact ht
  · rw [heffect]
    exact ht.effect htext he cwd

/-- One tree, whose files are all of some kind. -/
structure WellHolds (kind : Content → Prop) (t : Tree) : Prop where
  wellFormed : t.WellFormed
  holds : t.item?.Holds kind

/-- An empty tree has nothing but its root. -/
theorem item?_empty {now : Int} {p : Segments} {item : Item}
    (h : (Tree.empty now).item? p = some item) : item = ⟨.ofDirectory now, none⟩ := by
  obtain ⟨n, -, hn⟩ := item?_eq_some h
  rw [itemOf_empty] at hn
  split at hn
  · exact (Option.some.inj hn).symm
  · cases hn

/-- The empty tree holds contents of any kind. -/
theorem wellHolds_empty (kind : Content → Prop) (now : Int) : (Tree.empty now).WellHolds kind := by
  refine ⟨wellFormed_empty now, fun p a content h => ?_⟩
  cases item?_empty h

/-- A tree goes on holding contents of a kind while it is edited with known contents. -/
theorem WellHolds.perform {kind : Content → Prop} (htext : ∀ text, kind (.string text))
    (h : t.WellHolds kind) (now : Int) (cwd : String) {e : Edit} (he : e.WritesKnown t.item?) :
    (e.perform now cwd t).2.WellHolds kind where
  wellFormed := wellFormed_perform now cwd h.wellFormed e
  holds := holds_perform h.wellFormed h.holds htext he

/-- What a file holds is no reason to refuse a text that is to take its place; it is one to refuse a
text that is to go behind it just if it is no text. -/
theorem write_text_refused_iff (h : t.WellFormed) {text : String} {append : Bool} :
    (∃ e, (t.write now cwd path (.string text) append).1 = .error (.content e)) ↔
      append = true ∧ t.HoldsNoText path cwd := by
  have hs := h.standing (Path.resolve path cwd)
  simp only [HoldsNoText, content_eq_ok_iff]
  generalize hr : Path.resolve path cwd = place at hs
  cases hs with
  | root =>
    obtain ⟨item, hi, hdir⟩ := hasDirectory_iff.mpr ⟨_, h.directoryAt_root⟩
    rw [write_root hr, hi]
    constructor
    · rintro ⟨e, he⟩
      cases he
    · rintro ⟨-, content, ⟨a, hc⟩, -⟩
      rw [Option.some.inj hc] at hdir
      cases hdir
  | orphan hno =>
    rw [write_orphan hr hno, item?_of_orphan hno]
    simp
  | free hd hn =>
    rw [write_free hr hd hn, item?_of_free hd hn (List.prefix_refl _)]
    simp
  | @entry p name d n i hd hn hi =>
    rw [item?_of_entry hd hn hi]
    cases hbody : i.body with
    | directory children =>
      rw [write_directory hr hd hn hi (by rw [Inode.isDirectory, hbody])]
      simp [Inode.item, hbody]
    | file old =>
      have hitem : i.item = ⟨i.attributes, some old⟩ := by rw [Inode.item, hbody]
      rw [hitem]
      cases append with
      | false =>
        rw [write_file_ok hr hd hn hi hbody rfl]
        simp
      | true =>
        cases old with
        | string s =>
          rw [write_file_ok hr hd hn hi hbody rfl]
          simp
        | _ =>
          rw [write_file_error hr hd hn hi hbody rfl]
          simp

end Tree

/-- A text is refused by a content just if it is to be joined to one that is no text. -/
theorem Volume.write_text_refused_iff {v : Volume} (h : v.tree.WellFormed) {path cwd text : String}
    {append : Bool} :
    (∃ e, (v.perform cwd (.write path (.string text) append)).1 = .error (.content e)) ↔
      append = true ∧ v.tree.HoldsNoText path cwd := by
  have hw : (∃ e, (v.tree.write v.clock cwd path (.string text) append).1 = .error (.content e)) ↔
      append = true ∧ v.tree.HoldsNoText path cwd := Tree.write_text_refused_iff h
  rw [← hw, reply_perform, Edit.perform]
  cases (v.tree.write v.clock cwd path (.string text) append).1 with
  | ok saved => simp [Except.map]
  | error refusal => simp [Except.map]

end TreeShell
