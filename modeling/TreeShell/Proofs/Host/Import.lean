import TreeShell.Proofs.Host.Disk
import TreeShell.Proofs.Tree.Names
import TreeShell.Proofs.Tree.Records

/-!
# Trees of the host's folders

The tree that is read from the record of a folder has what the folder has, at the same places: a
directory for each folder, and a file for each file that is a text. By induction on the node of the
disk: what the record of a folder is read as finds under each name what the record of the entry with
this name is read as. A file that is no text has no record, and takes nothing else with it.
-/

namespace TreeShell

namespace DiskNode

variable {node : DiskNode} {times : DiskTimes} {entries : List (String × DiskNode)}
  {name : String}

/-! ## Names -/

mutual

/-- In each folder the entries have different names, of which paths can be made. -/
def WellNamed : DiskNode → Prop
  | .file .. => True
  | .folder _ entries => (entries.map Prod.fst).Nodup ∧ WellNamedAll entries

/-- Some entries have names of which paths can be made, and so have all those below them. -/
def WellNamedAll : List (String × DiskNode) → Prop
  | [] => True
  | (name, node) :: rest => Path.IsProper name ∧ WellNamed node ∧ WellNamedAll rest

end

/-- The entries of a folder are looked up as those of any ordered map. -/
theorem findEntry_eq (name : String) (entries : List (String × DiskNode)) :
    findEntry name entries = OrderedMap.find? name entries := by
  induction entries with
  | nil => rfl
  | cons entry rest ih => rw [findEntry, OrderedMap.find?, ih]

/-- Entries are well named if each has a proper name and is so itself. -/
theorem wellNamedAll_iff :
    WellNamedAll entries ↔ ∀ e ∈ entries, Path.IsProper e.1 ∧ e.2.WellNamed := by
  induction entries with
  | nil => simp [WellNamedAll]
  | cons e rest ih => simp [WellNamedAll, ih, and_assoc]

/-- What is found in a well-named folder has a proper name, and is well-named. -/
theorem WellNamedAll.of_findEntry (h : WellNamedAll entries)
    (hfind : findEntry name entries = some node) : Path.IsProper name ∧ node.WellNamed := by
  rw [findEntry_eq] at hfind
  exact wellNamedAll_iff.mp h _ (OrderedMap.mem_of_find?_eq_some hfind)

theorem at?_folder_cons (name : String) (rest : List String) :
    (DiskNode.folder times entries).at? (name :: rest) =
      (findEntry name entries).bind fun n => n.at? rest := rfl

/-- Whatever is in a well-named node is at proper names. -/
theorem WellNamed.isProper_of_at? (h : node.WellNamed) {names : List String}
    (hat : node.at? names ≠ none) : ∀ s ∈ names, Path.IsProper s := by
  induction names generalizing node with
  | nil => exact fun s hs => absurd hs List.not_mem_nil
  | cons first rest ih =>
    cases node with
    | file times bytes => exact absurd rfl hat
    | folder times entries =>
      rw [WellNamed] at h
      rw [at?_folder_cons] at hat
      cases hfind : findEntry first entries with
      | none =>
        rw [hfind] at hat
        exact absurd rfl hat
      | some child =>
        rw [hfind] at hat
        obtain ⟨hname, hchild⟩ := h.2.of_findEntry hfind
        exact List.forall_mem_cons.mpr ⟨hname, ih hchild hat⟩

/-! ## What a tree gets of a node -/

/-- What a tree gets of a node, without what is below it; a file that is no text gives nothing. -/
def item? : DiskNode → Option Item
  | .file times bytes => (readText bytes).toOption.map fun text =>
      ⟨attributesOf times Attributes.filePermissions, some (.string text)⟩
  | .folder times _ => some ⟨attributesOf times Attributes.directoryPermissions, none⟩

/-- What a tree gets of a node and all that is below it. -/
def image (node : DiskNode) : PathMap := fun place => (node.at? place).bind item?

theorem image_nil (node : DiskNode) : node.image [] = node.item? := rfl

/-- The image of a folder is made of the images of its entries. -/
theorem image_folder_cons (name : String) (rest : Segments) :
    (DiskNode.folder times entries).image (name :: rest) =
      (findEntry name entries).bind fun n => n.image rest := by
  rw [image, at?_folder_cons]
  cases findEntry name entries with
  | none => rfl
  | some n => rfl

/-- A node gives a directory just if it is a folder. -/
theorem item?_eq_directory_iff {a : Attributes} :
    node.item? = some ⟨a, none⟩ ↔ ∃ times entries, node = .folder times entries ∧
      a = ⟨times.changedAt, times.modifiedAt, .string Attributes.directoryPermissions⟩ := by
  cases node with
  | folder times entries =>
    rw [item?, attributesOf]
    constructor
    · intro h
      cases h
      exact ⟨times, entries, rfl, rfl⟩
    · rintro ⟨_, _, heq, rfl⟩
      cases heq
      rfl
  | file times bytes =>
    refine iff_of_false (fun h => ?_) fun ⟨_, _, heq, _⟩ => nomatch heq
    obtain ⟨text, -, heq⟩ := Option.map_eq_some_iff.mp h
    cases heq

/-- A node gives a file just if it is a file with the bytes of a text. -/
theorem item?_eq_file_iff {a : Attributes} {content : Content} :
    node.item? = some ⟨a, some content⟩ ↔
      ∃ times cs, node = .file times (Text.utf8 cs) ∧
        a = ⟨times.changedAt, times.modifiedAt, .string Attributes.filePermissions⟩ ∧
          content = .string (String.ofList (Text.foldNewlines cs)) := by
  cases node with
  | folder times entries =>
    exact iff_of_false (fun h => nomatch h) fun ⟨_, _, heq, _⟩ => nomatch heq
  | file times bytes =>
    rw [item?, attributesOf, Option.map_eq_some_iff]
    constructor
    · rintro ⟨text, htext, heq⟩
      obtain ⟨cs, rfl, rfl⟩ := toOption_readText_iff.mp htext
      cases heq
      exact ⟨times, cs, rfl, rfl, rfl⟩
    · rintro ⟨_, cs, heq, rfl, rfl⟩
      cases heq
      exact ⟨_, toOption_readText_iff.mpr ⟨cs, rfl, rfl⟩, rfl⟩

/-- A node has no record just if a tree gets nothing of it. -/
theorem record?_eq_none_iff : node.record? name = none ↔ node.item? = none := by
  cases node with
  | folder times entries => exact iff_of_false (fun h => nomatch h) fun h => nomatch h
  | file times bytes => rw [record?, item?, Option.map_eq_none_iff, Option.map_eq_none_iff]

/-- A tree gets nothing of a file that is no text. -/
theorem item?_file_eq_none {bytes : List UInt8} (h : ∀ cs, bytes ≠ Text.utf8 cs) :
    (DiskNode.file times bytes).item? = none := by
  rw [item?, Option.map_eq_none_iff, Option.eq_none_iff_forall_ne_some]
  intro text htext
  obtain ⟨cs, hcs, -⟩ := toOption_readText_iff.mp htext
  exact h cs hcs

/-- Of what a tree gets nothing of, there is nothing below. -/
theorem image_of_item?_eq_none (h : node.item? = none) : node.image = fun _ => none := by
  cases node with
  | folder times entries => cases h
  | file times bytes =>
    funext place
    cases place with
    | nil => exact h
    | cons first rest => rfl

/-! ## Records of entries -/

/-- The records of entries are those of the ones that have a record. -/
theorem recordAll_eq (entries : List (String × DiskNode)) :
    recordAll entries = entries.filterMap fun e => (e.2.record? e.1).map fun r => (e.1, r) := by
  induction entries with
  | nil => rfl
  | cons entry rest ih =>
    obtain ⟨name, node⟩ := entry
    rw [recordAll, List.filterMap_cons, ih]
    cases record? name node <;> rfl

/-- Each record among those of entries is that of an entry. -/
theorem exists_of_mem_recordAll {r : Json} (h : (name, r) ∈ recordAll entries) :
    ∃ node, (name, node) ∈ entries ∧ node.record? name = some r := by
  rw [recordAll_eq, List.mem_filterMap] at h
  obtain ⟨⟨first, node⟩, hmem, hr⟩ := h
  obtain ⟨r', hr', heq⟩ := Option.map_eq_some_iff.mp hr
  cases heq
  exact ⟨node, hmem, hr'⟩

/-- The records of entries keep the order of the names. -/
theorem map_fst_recordAll_sublist (entries : List (String × DiskNode)) :
    ((recordAll entries).map Prod.fst).Sublist (entries.map Prod.fst) := by
  rw [recordAll_eq]
  exact OrderedMap.map_fst_filterMap_sublist (fun e => e.2.record? e.1) entries

/-- Under the name of an entry stands its record, if it has one. -/
theorem find?_recordAll (hn : (entries.map Prod.fst).Nodup) (name : String) :
    OrderedMap.find? name (recordAll entries) = (findEntry name entries).bind (record? name) := by
  rw [recordAll_eq, findEntry_eq]
  exact OrderedMap.find?_filterMap (fun e => e.2.record? e.1) hn name

/-- Records of entries stay if an entry is replaced by one with the same record. -/
theorem recordAll_setEntry {new : DiskNode} (hfind : findEntry name entries = some node)
    (hr : new.record? name = node.record? name) :
    recordAll (setEntry name new entries) = recordAll entries := by
  induction entries with
  | nil => cases hfind
  | cons entry rest ih =>
    obtain ⟨first, old⟩ := entry
    rw [findEntry] at hfind
    rw [setEntry]
    by_cases hfirst : first = name
    · subst hfirst
      rw [if_pos rfl] at hfind ⊢
      cases hfind
      rw [recordAll, recordAll, hr]
    · rw [if_neg hfirst] at hfind ⊢
      rw [recordAll, recordAll, ih hfind]

/-- Records of entries stay if one is taken out that has no record. -/
theorem recordAll_filter (hn : (entries.map Prod.fst).Nodup)
    (hfind : findEntry name entries = some node) (hr : node.record? name = none) :
    recordAll (entries.filter fun e => e.1 ≠ name) = recordAll entries := by
  rw [recordAll_eq, recordAll_eq, List.filterMap_filter]
  refine List.filterMap_congr fun e he => ?_
  split
  · rfl
  · next hkept =>
    have hname : e.1 = name := by simpa using hkept
    subst hname
    rw [findEntry_eq, OrderedMap.find?_eq_some_of_mem hn he] at hfind
    cases hfind
    rw [hr, Option.map_none]

/-- What lies deeper is erased from the entry that it lies in. -/
theorem eraseAt_folder_cons {rest : List String} (hrest : rest ≠ [])
    (hfind : findEntry name entries = some node) :
    (DiskNode.folder times entries).eraseAt (name :: rest) =
      .folder times (setEntry name (node.eraseAt rest) entries) := by
  cases rest with
  | nil => exact absurd rfl hrest
  | cons second others => rw [eraseAt, hfind]

/-- What stands above what is erased stays a folder or a file. -/
theorem isFolder_eraseAt (node : DiskNode) (names : List String) :
    (node.eraseAt names).isFolder = node.isFolder := by
  unfold eraseAt
  split
  · rfl
  · split
    · rfl
    · split
      · rfl
      · split <;> rfl

/-- A well-named node has the same record without anything that a tree gets nothing of. -/
theorem WellNamed.record?_eraseAt (hn : node.WellNamed) {names : List String} {n : DiskNode}
    (hne : names ≠ []) (hat : node.at? names = some n) (hnone : n.item? = none) (name : String) :
    (node.eraseAt names).record? name = node.record? name := by
  induction names generalizing node name with
  | nil => exact absurd rfl hne
  | cons first rest ih =>
    cases node with
    | file times bytes => cases hat
    | folder times entries =>
      rw [WellNamed] at hn
      rw [at?_folder_cons] at hat
      obtain ⟨child, hchild, hat⟩ := Option.bind_eq_some_iff.mp hat
      obtain ⟨-, hwell⟩ := hn.2.of_findEntry hchild
      cases rest with
      | nil =>
        -- the entry itself goes, and it had no record
        cases hat
        rw [eraseAt, record?, record?, recordAll_filter hn.1 hchild (record?_eq_none_iff.mpr hnone)]
      | cons second others =>
        -- the entry above what goes stays, and so does its record
        have hrest : second :: others ≠ [] := List.cons_ne_nil second others
        rw [eraseAt_folder_cons hrest hchild, record?, record?,
          recordAll_setEntry hchild (ih hwell hrest hat first)]

end DiskNode

/-! ## What records are read as -/

/-- Entries are read if each of them is, and under each name stands what its record is read as. -/
theorem Node.ofEntries_of_forall {now : Int} {records : List (String × Json)}
    (h : ∀ e ∈ records, ∃ node, ofRecord now e.2 = .ok node) :
    ∃ nodes, ofEntries now records = .ok nodes ∧ ∀ name, OrderedMap.find? name nodes =
      (OrderedMap.find? name records).bind fun r => (ofRecord now r).toOption := by
  induction records with
  | nil => exact ⟨[], rfl, fun _ => rfl⟩
  | cons record rest ih =>
    obtain ⟨first, r⟩ := record
    rw [List.forall_mem_cons] at h
    obtain ⟨⟨node, hnode⟩, hrest⟩ := h
    obtain ⟨nodes, hnodes, hfind⟩ := ih hrest
    refine ⟨(first, node) :: nodes, ?_, fun name => ?_⟩
    · dsimp only at hnode
      rw [ofEntries, hnode, hnodes]
      rfl
    · rw [OrderedMap.find?, OrderedMap.find?, hfind]
      split
      · dsimp only at hnode
        rw [Option.bind_some, hnode]
        rfl
      · rfl

namespace DiskNode

/-- A folder's record is read as a directory, if the records of its entries are read. -/
theorem ofRecord_folderRecord {now : Int} {name : String} {times : DiskTimes}
    {records : List (String × Json)} {nodes : List (String × Node)}
    (h : Node.ofEntries now (Text.sortedByName records) = .ok nodes) :
    Node.ofRecord now (folderRecord name times records) =
      .ok (.directory (attributesOf times Attributes.directoryPermissions) nodes) := by
  have hchildren : ∀ metadata, Node.ofChildren now [("type", .string "directory"),
      ("name", .string name), ("children", .object (Text.sortedByName records)),
        ("metadata", metadata)] = .ok nodes := fun _ => h
  simp only [folderRecord, Node.ofRecord, hchildren]
  rw [Node.readAttributes_record _ (attributesOf times Attributes.directoryPermissions) rfl]
  rfl

/-- The record of a file is read back as the file. -/
theorem ofRecord_fileRecord (now : Int) (name : String) (times : DiskTimes) (text : String) :
    Node.ofRecord now (fileRecord name times text) =
      .ok (.file (attributesOf times Attributes.filePermissions) (.string text)) := by
  simp only [fileRecord, Node.ofRecord]
  rw [Node.readAttributes_record _ (attributesOf times Attributes.filePermissions) rfl,
    Node.readContent_of_lasting (Json.isLasting_string text) rfl]
  rfl

mutual

/-- The record of a well-named node is read, and what it is read as has what the node gives. -/
theorem ofRecord_record? (now : Int) (name : String) (node : DiskNode) (hn : node.WellNamed)
    {r : Json} (h : node.record? name = some r) :
    ∃ n, Node.ofRecord now r = .ok n ∧ n.item? = node.image := by
  cases node with
  | file times bytes =>
    rw [record?] at h
    obtain ⟨text, htext, rfl⟩ := Option.map_eq_some_iff.mp h
    refine ⟨_, ofRecord_fileRecord now name times text, ?_⟩
    funext place
    cases place with
    | nil =>
      rw [Node.item?_nil, image_nil, item?, htext]
      rfl
    | cons first rest => rfl
  | folder times entries =>
    rw [WellNamed] at hn
    cases h
    have hread := forall_ofRecord_record? now entries hn.2
    have hkeys := hn.1.sublist (map_fst_recordAll_sublist entries)
    have hperm := List.mergeSort_perm (recordAll entries) fun a b => decide (a.1 ≤ b.1)
    have hrecords : ∀ e ∈ Text.sortedByName (recordAll entries),
        ∃ n, Node.ofRecord now e.2 = .ok n := by
      rintro ⟨first, r⟩ hmem
      obtain ⟨child, hchild, hr⟩ := exists_of_mem_recordAll (hperm.mem_iff.mp hmem)
      obtain ⟨n, hn, -⟩ := hread _ hchild r hr
      exact ⟨n, hn⟩
    obtain ⟨nodes, hnodes, hfind⟩ := Node.ofEntries_of_forall hrecords
    refine ⟨_, ofRecord_folderRecord hnodes, ?_⟩
    funext place
    cases place with
    | nil => rfl
    | cons first rest =>
      -- the records are sorted, which makes no difference to what is found under a name
      rw [Node.item?_cons, Node.child?, hfind, Text.sortedByName,
        ← OrderedMap.find?_perm hkeys hperm.symm, find?_recordAll hn.1, image_folder_cons]
      cases hentry : findEntry first entries with
      | none => rfl
      | some child =>
        rw [Option.bind_some, Option.bind_some]
        cases hr : record? first child with
        | none =>
          rw [image_of_item?_eq_none (record?_eq_none_iff.mp hr)]
          rfl
        | some r =>
          rw [findEntry_eq] at hentry
          obtain ⟨n, hok, hitem⟩ := hread _ (OrderedMap.mem_of_find?_eq_some hentry) r hr
          rw [Option.bind_some, hok, ← hitem]
          rfl

/-- The records of well-named entries are read back as their images. -/
theorem forall_ofRecord_record? (now : Int) (entries : List (String × DiskNode))
    (hn : WellNamedAll entries) : ∀ e ∈ entries, ∀ r, e.2.record? e.1 = some r →
      ∃ n, Node.ofRecord now r = .ok n ∧ n.item? = e.2.image := by
  cases entries with
  | nil => exact fun e he => absurd he List.not_mem_nil
  | cons entry rest =>
    obtain ⟨name, node⟩ := entry
    rw [WellNamedAll] at hn
    refine List.forall_mem_cons.mpr ⟨fun r h => ?_, forall_ofRecord_record? now rest hn.2.2⟩
    exact ofRecord_record? now name node hn.2.1 h

end

end DiskNode

/-! ## Trees of folders -/

/-- A tree has just what a folder of the disk has: a directory where this has a folder, a file with
the text where it has a file that is a text, with the times of the disk, and nothing else. To each
of these places leads the path that is made of its names. -/
structure Tree.Mirrors (t : Tree) (node : DiskNode) : Prop where
  directory_iff : ∀ p a, t.item? p = some ⟨a, none⟩ ↔
    ∃ times entries, node.at? p = some (.folder times entries) ∧
      a = ⟨times.changedAt, times.modifiedAt, .string Attributes.directoryPermissions⟩
  file_iff : ∀ p a content, t.item? p = some ⟨a, some content⟩ ↔
    ∃ times cs, node.at? p = some (.file times (Text.utf8 cs)) ∧
      a = ⟨times.changedAt, times.modifiedAt, .string Attributes.filePermissions⟩ ∧
        content = .string (String.ofList (Text.foldNewlines cs))
  resolve_format : ∀ p, node.at? p ≠ none → ∀ cwd, Path.resolve (Path.format p) cwd = p

/-- A tree has nothing where the folder has a file that is no text. -/
theorem Tree.Mirrors.item?_eq_none {t : Tree} {node : DiskNode} (h : t.Mirrors node) {p : Segments}
    {times : DiskTimes} {bytes : List UInt8} (hat : node.at? p = some (.file times bytes))
    (hbytes : ∀ cs, bytes ≠ Text.utf8 cs) : t.item? p = none := by
  rw [Option.eq_none_iff_forall_ne_some]
  rintro ⟨a, content⟩ hitem
  cases content with
  | none =>
    obtain ⟨_, _, hfolder, -⟩ := (h.directory_iff p a).mp hitem
    cases hat.symm.trans hfolder
  | some content =>
    obtain ⟨_, cs, hfile, -⟩ := (h.file_iff p a content).mp hitem
    cases hat.symm.trans hfile
    exact hbytes cs rfl

namespace DiskNode

variable {node : DiskNode} {t : Tree}

/-- A tree that shows the image of a well-named folder mirrors it. -/
theorem WellNamed.mirrors (hn : node.WellNamed) (h : t.item? = node.image) : t.Mirrors node := by
  refine ⟨fun p a => ?_, fun p a content => ?_, fun p hp => ?_⟩
  · rw [h, image]
    cases hat : node.at? p with
    | none => exact iff_of_false (fun h => nomatch h) fun ⟨_, _, h, _⟩ => nomatch h
    | some n =>
      simp only [Option.bind_some, item?_eq_directory_iff, Option.some.injEq]
  · rw [h, image]
    cases hat : node.at? p with
    | none => exact iff_of_false (fun h => nomatch h) fun ⟨_, _, h, _⟩ => nomatch h
    | some n =>
      simp only [Option.bind_some, item?_eq_file_iff, Option.some.injEq]
  · exact Path.resolve_format (hn.isProper_of_at? hp)

/-- All names in the image of a well-named folder are proper. -/
theorem WellNamed.proper_image (hn : node.WellNamed) : node.image.Proper := by
  intro p hp
  refine hn.isProper_of_at? fun hat => hp ?_
  rw [image, hat, Option.bind_none]

end DiskNode

/-- A folder on the disk has the record of the folder. -/
theorem Disk.folderRecord_eq_ok {d : Disk} {l : Location} {node : DiskNode} {name : String}
    {r : Json} (h : d.node? l = .ok (some node)) (hfolder : node.isFolder = true)
    (hr : node.record? name = some r) : d.folderRecord l name = .ok r := by
  cases node with
  | file times bytes => cases hfolder
  | folder times entries =>
    cases hr
    rw [Disk.folderRecord, h]

/-- A folder has a record, the record is read, and the tree has just what the folder has. Without a
file that is no text, the folder has the same record. -/
theorem Disk.mirrors_folder {d : Disk} {l : Location} {node : DiskNode}
    (h : d.node? l = .ok (some node)) (hfolder : node.isFolder = true) (hn : node.WellNamed)
    (name : String) (now : Int) :
    ∃ r t, d.folderRecord l name = .ok r ∧ Tree.ofRecord now r = .ok t ∧ t.WellFormed ∧
      t.Addressable ∧ t.Mirrors node ∧
      ∀ p times bytes, node.at? p = some (.file times bytes) → (∀ cs, bytes ≠ Text.utf8 cs) →
        ∀ (d' : Disk) (l' : Location), d'.node? l' = .ok (some (node.eraseAt p)) →
          d'.folderRecord l' name = .ok r := by
  obtain ⟨r, hr⟩ : ∃ r, node.record? name = some r := by
    cases node with
    | file times bytes => cases hfolder
    | folder times entries => exact ⟨_, rfl⟩
  obtain ⟨n, hread, hitem⟩ := DiskNode.ofRecord_record? now name node hn hr
  have hroot : Node.ofRootRecord now r = .ok n := by
    cases node with
    | file times bytes => cases hfolder
    | folder times entries =>
      cases hr
      exact hread
  have hdirectory := Tree.isDirectory_ofRootRecord hroot
  have hitem : (Tree.ofNode n).item? = node.image := (Tree.item?_ofNode n).trans hitem
  have hwf := Tree.wellFormed_ofNode hdirectory
  refine ⟨r, Tree.ofNode n, folderRecord_eq_ok h hfolder hr, ?_, hwf, ?_, hn.mirrors hitem, ?_⟩
  · rw [Tree.ofRecord, hroot]
    rfl
  · rw [Tree.addressable_iff hwf, hitem]
    exact hn.proper_image
  · intro p times bytes hat hbytes d' l' h'
    have hne : p ≠ [] := by
      rintro rfl
      cases hat
      cases hfolder
    refine folderRecord_eq_ok h' ((node.isFolder_eraseAt p).trans hfolder) ?_
    rw [hn.record?_eraseAt hne hat (DiskNode.item?_file_eq_none hbytes), hr]

/-- A folder with a text, a file that is no text, an empty folder, and a folder with another folder
and an empty file in it. -/
def DiskNode.mixed : DiskNode :=
  .folder ⟨1, 2⟩
    [("notes", .file ⟨3, 4⟩ (Text.utf8 "a\r\nb\rc".toList)), ("noise", .file ⟨5, 6⟩ [0x61, 0xFF]),
      ("void", .folder ⟨7, 8⟩ []),
      ("more", .folder ⟨9, 10⟩
        [("deep", .folder ⟨11, 12⟩ [("mark", .file ⟨13, 14⟩ [0xC3, 0xA9])]),
          ("blank", .file ⟨15, 16⟩ [])])]

/-- A disk with a folder in the working folder. -/
def Disk.holding (node : DiskNode) : Disk :=
  ⟨.folder ⟨0, 0⟩ [("work", .folder ⟨0, 0⟩ [("source", node)])], ["work"], ⟨0, 0⟩⟩

/-- This disk has the node at this location. -/
theorem Disk.node?_holding (node : DiskNode) :
    (Disk.holding node).node? (Location.ofString "source") = .ok (some node) := by
  rfl

/-- Texts, empty files and empty folders are there at any depth, whatever stands beside them. -/
theorem Disk.mirrors_mixed :
    ∃ r t, (Disk.holding .mixed).folderRecord (Location.ofString "source") "/" = .ok r ∧
      Tree.ofRecord 0 r = .ok t ∧
      t.item? ["notes"] = some ⟨⟨3, 4, .string "-rw-r--r--"⟩, some (.string "a\nb\nc")⟩ ∧
      t.item? ["more", "deep", "mark"] =
        some ⟨⟨13, 14, .string "-rw-r--r--"⟩, some (.string "é")⟩ ∧
      t.item? ["more", "blank"] = some ⟨⟨15, 16, .string "-rw-r--r--"⟩, some (.string "")⟩ ∧
      t.item? ["void"] = some ⟨⟨7, 8, .string "drwxr-xr-x"⟩, none⟩ ∧ t.item? ["noise"] = none ∧
      (Disk.holding (DiskNode.mixed.eraseAt ["noise"])).folderRecord
        (Location.ofString "source") "/" = .ok r := by
  have hwell : DiskNode.mixed.WellNamed := by
    simp only [DiskNode.mixed, DiskNode.WellNamed, DiskNode.WellNamedAll]
    decide
  obtain ⟨r, t, hrecord, hread, -, -, hmirrors, herase⟩ :=
    Disk.mirrors_folder (Disk.node?_holding .mixed) rfl hwell "/" 0
  have hnoise : DiskNode.mixed.at? ["noise"] = some (.file ⟨5, 6⟩ [0x61, 0xFF]) := rfl
  have hbytes : ∀ cs, [0x61, 0xFF] ≠ Text.utf8 cs := Text.ne_utf8_of_decodeUtf8 rfl
  refine ⟨r, t, hrecord, hread, ?_, ?_, ?_, ?_, hmirrors.item?_eq_none hnoise hbytes,
    herase _ _ _ hnoise hbytes _ _ (Disk.node?_holding _)⟩
  · exact (hmirrors.file_iff _ _ _).mpr ⟨_, _, rfl, rfl, rfl⟩
  · exact (hmirrors.file_iff _ _ _).mpr ⟨_, ['é'], rfl, rfl, rfl⟩
  · exact (hmirrors.file_iff _ _ _).mpr ⟨_, [], rfl, rfl, rfl⟩
  · exact (hmirrors.directory_iff _ _).mpr ⟨_, _, rfl, rfl⟩

end TreeShell
