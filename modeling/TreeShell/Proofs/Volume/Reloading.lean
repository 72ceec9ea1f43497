import TreeShell.Proofs.Tree.Replanting

/-!
# Trees that are read back

Whatever texts are written to a volume, and however else it is changed, the record of its tree gives
the tree back, with the same record as before. That holds at whatever time the record is read, and
whatever the record was that the volume began with, as long as that was read at all.
-/

namespace TreeShell

/-- Whether what a request writes into a file, if it does, is a text. -/
def Request.WritesText (r : Request) : Prop := ∀ e, r.operation = .edit e → e.WritesText

namespace Volume

variable {v : Volume}

/-- Requests that write nothing but texts leave a tree whose files are of a kind that texts are
of. -/
theorem wellHolds_serve {kind : Content → Prop} (htext : ∀ text, kind (.string text))
    (h : v.tree.WellHolds kind) {rs : List Request} (hrs : ∀ r ∈ rs, r.WritesText) :
    (v.serve rs).2.tree.WellHolds kind := by
  refine serve_induction (P := fun w => w.tree.WellHolds kind) h rs fun w r hr hw => ?_
  rw [tree_request]
  cases he : r.operation with
  | edit e => exact hw.perform htext r.clock r.cwd ((hrs r hr e he).known _)
  | save => exact hw
  | ask q => exact hw

/-- The files of a volume that nothing has been asked of are read back as they are. -/
theorem Fresh.wellHolds (h : v.Fresh) : v.tree.WellHolds Json.IsLasting := by
  refine ⟨h.wellFormed, ?_⟩
  rcases h with h | ⟨record, h⟩
  · rw [h]
    exact (Tree.wellHolds_empty Json.IsLasting v.clock).holds
  · exact Tree.holds_ofRecord h

/-- The tree that requests leave is read back from its record at any time: the tree that is read has
the same record, and the same nodes at the same places. -/
theorem reloads_record (h : v.Fresh) {rs : List Request} (hrs : ∀ r ∈ rs, r.WritesText)
    (now : Int) :
    ∃ t, Tree.ofRecord now (v.serve rs).2.tree.record = .ok t ∧
      t.record = (v.serve rs).2.tree.record ∧ t.item? = (v.serve rs).2.tree.item? := by
  have htree := wellHolds_serve Json.isLasting_string h.wellHolds hrs
  obtain ⟨t, hread, hwf, hnode⟩ := htree.wellFormed.toNode_ofRecord_record htree.holds now
  refine ⟨t, hread, by rw [Tree.record, Tree.record, hnode], ?_⟩
  rw [← hwf.toNode_spec.2, hnode, htree.wellFormed.toNode_spec.2]

/-- A record that leaves out most of what it could say, and has one time with a fraction and one in
words. -/
def sparseRecord : Json :=
  .object [("type", .string "directory"),
    ("metadata", .object [("createdAt", .float (.finite false 3 (-1))),
      ("permissions", .string "")]),
    ("children", .object [
      ("b", .object [("type", .string "directory"), ("children", .null)]),
      ("a", .object [("type", .string "file"),
        ("metadata", .object [("modifiedAt", .string " 7 ")]), ("content", .null)])])]

/-- A volume that begins with the tree of that record. -/
def sparse : Volume :=
  unsaved (.ofNode (.directory ⟨1, 5, .string ""⟩
    [("b", .directory (.ofDirectory 5) []),
      ("a", .file ⟨5, 7, .string "-rw-r--r--"⟩ (.string ""))])) 5

/-- The tree of this volume is read from a record. -/
theorem fresh_sparse : sparse.Fresh := by
  have hread : Node.ofRootRecord 5 sparseRecord = .ok (.directory ⟨1, 5, .string ""⟩
      [("b", .directory (.ofDirectory 5) []),
        ("a", .file ⟨5, 7, .string "-rw-r--r--"⟩ (.string ""))]) := rfl
  refine Or.inr ⟨sparseRecord, ?_⟩
  have hclock : sparse.clock = 5 := rfl
  rw [hclock, Tree.ofRecord, hread]
  rfl

theorem reloads_record_sparse :
    let requests : List Request :=
      [⟨6, "/", .edit (.write "b/c" (.string "x") false)⟩, ⟨7, "/b", .edit (.move "../a" "d")⟩,
        ⟨8, "/", .edit (.delete "b/c" false)⟩]
    ∃ t, Tree.ofRecord 9 (sparse.serve requests).2.tree.record = .ok t ∧
      t.record = (sparse.serve requests).2.tree.record ∧
      t.item? = (sparse.serve requests).2.tree.item? :=
  reloads_record fresh_sparse (by simp [Request.WritesText, Edit.WritesText]) 9

end Volume

end TreeShell
