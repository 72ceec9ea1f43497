import TreeShell.Proofs.Host.Disk
import TreeShell.Proofs.Volume.Reloading

/-!
# Trees that are saved to a file

A tree that began empty, and that only texts were written to, has a record of texts and whole
numbers. That record is loaded from the file of the host that it was saved to, entry for entry,
whatever characters the names and the texts have, as long as no time has more digits than are read.
-/

namespace TreeShell

namespace Item

/-- A node of a tree whose attributes, and what it holds, are read back from where they are
written. -/
structure IsPlain (item : Item) : Prop where
  attributes : item.attributes.record.Plain
  content : ∀ content, item.content = some content → content.Plain

variable {item : Item} {now : Int}

/-- The attributes of a node are plain when its times can be read and its permissions are a plain
text. -/
theorem plain_record_iff {a : Attributes} :
    a.record.Plain ↔
      Json.Readable a.createdAt ∧ Json.Readable a.modifiedAt ∧ a.permissions.Plain := by
  simp [Attributes.record, Json.Plain, Json.PlainFields]

/-- A file with a text is plain if its attributes are. -/
theorem isPlain_string {a : Attributes} (ha : a.record.Plain) (text : String) :
    IsPlain ⟨a, some (.string text)⟩ := by
  refine ⟨ha, fun content hc => ?_⟩
  cases hc
  trivial

/-- A new directory is plain at a time that can be read. -/
theorem isPlain_directory (hnow : Json.Readable now) : IsPlain ⟨.ofDirectory now, none⟩ :=
  ⟨plain_record_iff.mpr ⟨hnow, hnow, trivial⟩, fun content hc => by cases hc⟩

/-- The attributes of a new file are plain at a time that can be read. -/
theorem plain_record_ofFile (hnow : Json.Readable now) : (Attributes.ofFile now).record.Plain :=
  plain_record_iff.mpr ⟨hnow, hnow, trivial⟩

/-- A node that is plain stays so when it is modified at a time that can be read. -/
theorem IsPlain.modified (h : item.IsPlain) (hnow : Json.Readable now) :
    (item.modified now).IsPlain where
  attributes := by
    obtain ⟨hcreated, -, hpermissions⟩ := plain_record_iff.mp h.attributes
    exact plain_record_iff.mpr ⟨hcreated, hnow, hpermissions⟩
  content := h.content

end Item

/-- Edits that write texts put nothing at a place but what is read back, at a time that is. -/
theorem Edit.WritesText.puts_isPlain {e : Edit} (h : e.WritesText) {now : Int}
    (hnow : Json.Readable now) : e.Puts Item.IsPlain now := by
  cases e with
  | write path content append =>
    intro o new ho hnew
    obtain ⟨text, rfl⟩ := h
    obtain ⟨s, rfl⟩ := PathMap.exists_text_of_written hnew
    refine Item.isPlain_string ?_ s
    cases o with
    | none => exact Item.plain_record_ofFile hnow
    | some item => exact ((ho item rfl).modified hnow).attributes
  | createDirectory path => exact Item.isPlain_directory hnow
  | makeDirectories path => exact Item.isPlain_directory hnow
  | touch path =>
    exact ⟨Item.isPlain_string (Item.plain_record_ofFile hnow) "", fun item hi => hi.modified hnow⟩
  | delete path recursive => trivial
  | move source destination => trivial

/-! ## Records of values -/

namespace Node

/-- The records of entries have the names of the entries. -/
theorem map_fst_entryRecords (entries : List (String × Node)) :
    (entryRecords entries).map Prod.fst = entries.map Prod.fst := by
  induction entries with
  | nil => rfl
  | cons e entries ih => rw [entryRecords, List.map_cons, List.map_cons, ih]

/-- The record of a node has fields, whatever the node is. -/
theorem exists_record_eq (name : String) (node : Node) :
    ∃ fields, node.record name = .object fields := by
  cases node with
  | file a content => exact ⟨_, by rw [record]⟩
  | directory a entries => exact ⟨_, by rw [record]⟩

mutual

/-- The record of a node is read back, if all its nodes are. -/
theorem plain_record (name : String) (node : Node) (hd : node.Distinct)
    (h : node.item?.Every Item.IsPlain) : (node.record name).Plain := by
  cases node with
  | file a content =>
    have hroot := h [] _ rfl
    rw [record]
    simp only [Json.Plain, Json.PlainFields]
    exact ⟨by simp, trivial, trivial, hroot.attributes, hroot.content _ rfl, trivial⟩
  | directory a entries =>
    have hroot := h [] _ rfl
    rw [Distinct] at hd
    have hentries := plain_entryRecords entries hd.2 fun e he p item hp => by
      refine h (e.1 :: p) item ?_
      rw [item?_cons, child?, OrderedMap.find?_eq_some_of_mem hd.1 he, Option.bind_some, hp]
    rw [record]
    simp only [Json.Plain, Json.PlainFields, map_fst_entryRecords]
    exact ⟨by simp, trivial, trivial, hroot.attributes, ⟨hd.1, hentries⟩, trivial⟩

/-- The records of entries are read back, if all their nodes are. -/
theorem plain_entryRecords (entries : List (String × Node)) (hd : DistinctAll entries)
    (h : ∀ e ∈ entries, e.2.item?.Every Item.IsPlain) :
    Json.PlainFields (entryRecords entries) := by
  cases entries with
  | nil => trivial
  | cons e rest =>
    obtain ⟨name, node⟩ := e
    rw [DistinctAll] at hd
    rw [entryRecords, Json.PlainFields]
    rw [List.forall_mem_cons] at h
    exact ⟨plain_record name node hd.1 h.1, plain_entryRecords rest hd.2 h.2⟩

end

end Node

/-- The record of a tree is plain if all its nodes are. -/
theorem Tree.WellFormed.plain_record {t : Tree} (h : t.WellFormed)
    (hplain : t.item?.Every Item.IsPlain) : t.record.Plain := by
  obtain ⟨hnode, hitem⟩ := h.toNode_spec
  rw [Tree.record]
  exact Node.plain_record "/" t.toNode (Tree.distinct_nodeOf hnode) (hitem ▸ hplain)

namespace Volume

variable {v : Volume}

/-- Requests that write texts, at times that are read back, leave a tree whose record is. -/
theorem plain_record_serve (h : v.tree = Tree.empty v.clock) (hclock : Json.Readable v.clock)
    {rs : List Request} (hrs : ∀ r ∈ rs, r.WritesText ∧ Json.Readable r.clock) :
    (v.serve rs).2.tree.record.Plain := by
  have hfirst : v.tree.WellFormed ∧ v.tree.item?.Every Item.IsPlain := by
    rw [h]
    refine ⟨Tree.wellFormed_empty v.clock, fun p item hp => ?_⟩
    rw [Tree.item?_empty hp]
    exact Item.isPlain_directory hclock
  have hlast := serve_induction (P := fun w => w.tree.WellFormed ∧ w.tree.item?.Every Item.IsPlain)
    hfirst rs fun w r hr hw => by
      refine ⟨wellFormed_request hw.1 r, ?_⟩
      rw [tree_request]
      cases he : r.operation with
      | edit e => exact Tree.every_perform hw.1 hw.2 (((hrs r hr).1 e he).puts_isPlain (hrs r hr).2)
      | save => exact hw.2
      | ask q => exact hw.2
  exact hlast.1.plain_record hlast.2

/-- The record of the tree that requests leave is loaded from the file that it was saved to, with
all entries in their order. -/
theorem load_save_record (h : v.tree = Tree.empty v.clock) (hclock : Json.Readable v.clock)
    {rs : List Request} (hrs : ∀ r ∈ rs, r.WritesText ∧ Json.Readable r.clock) (l : Location)
    (s : Storage)
    (hsave : ((Store.file l).save (v.serve rs).2.tree.record s).1 = .ok ()) :
    (Store.file l).load ((Store.file l).save (v.serve rs).2.tree.record s).2 =
      .ok (some (v.serve rs).2.tree.record) := by
  have hplain := plain_record_serve h hclock hrs
  obtain ⟨fields, hrecord⟩ := Node.exists_record_eq "/" (v.serve rs).2.tree.toNode
  rw [← Tree.record] at hrecord
  rw [hrecord] at hplain hsave ⊢
  exact Disk.loadRecord_saveRecord hplain hsave

theorem load_save_record_unusual :
    let requests : List Request :=
      [⟨1, "/", .edit (.makeDirectories "a b/\u00e9")⟩,
        ⟨2, "/a b", .edit (.write "\u00e9/\"\\" (.string "x\r\ny\r\u0000𐍈\x7f") false)⟩,
        ⟨-3, "/", .edit (.touch "\u0001")⟩]
    let record := ((unsaved (Tree.empty 0) 0).serve requests).2.tree.record
    let location : Location := ⟨.here, ["saved", "tree.json"]⟩
    let storage : Storage := ⟨.blank ⟨0, 0⟩, []⟩
    (Store.file location).load ((Store.file location).save record storage).2 =
      .ok (some record) := by
  refine load_save_record rfl (by decide) (fun r hr => ⟨?_, ?_⟩) _ _ rfl
  · revert r
    simp [Request.WritesText, Edit.WritesText]
  · revert r
    decide

end Volume

end TreeShell
