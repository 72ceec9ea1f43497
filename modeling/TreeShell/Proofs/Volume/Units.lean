import TreeShell.Proofs.Tree.Listing
import TreeShell.Proofs.Tree.Names
import TreeShell.Proofs.Tree.Texts
import TreeShell.Proofs.Volume.Installing

/-!
# Units that are listed and units that are read

The names that are listed in a directory are those of the unit files in it, and a name without a
slash is listed just if the path that is read for it leads to a file. So every name that gives a
command is listed. A listed name gives the command that the first line of its unit names, or fails
for that line, unless it is no name of a command, or what its unit holds is no text.
-/

namespace TreeShell

namespace Text

variable {entry tail : String}

/-- The name of a unit file, without its ending. -/
theorem withoutTail_append (name tail : String) :
    hasTail (name ++ tail) tail = true ∧ withoutTail (name ++ tail) tail = name := by
  have hdrop : dropTail? tail.toList (name ++ tail).toList = some name.toList := by
    rw [dropTail?_eq_some_iff, String.toList_append]
  constructor
  · rw [hasTail, hdrop, Option.isSome_some]
  · rw [withoutTail, hdrop]
    exact String.ofList_toList

theorem eq_append_of_hasTail (h : hasTail entry tail = true) :
    entry = withoutTail entry tail ++ tail := by
  obtain ⟨rest, hrest⟩ := Option.isSome_iff_exists.mp h
  rw [withoutTail, hrest, ← String.toList_inj, String.toList_append, String.toList_ofList]
  exact dropTail?_eq_some_iff.mp hrest

end Text

namespace Tree

variable {t : Tree} {path cwd bin name : String}

theorem isFile_iff : t.isFile path cwd = true ↔ t.item?.HasFile (Path.resolve path cwd) := by
  rw [isFile, PathMap.HasFile, item?_eq_map_lookup]
  cases t.lookup (Path.resolve path cwd) with
  | none => simp
  | some e => simp [Inode.isDirectory_item]

theorem find?_of_hasFile {place : Segments} (h : t.item?.HasFile place) : t.find? place ≠ none := by
  obtain ⟨item, hitem, -⟩ := h
  obtain ⟨n, hn, -⟩ := item?_eq_some hitem
  exact Option.ne_none_iff_exists'.mpr ⟨n, hn⟩

/-- What a file holds can be read, and nothing else can. -/
theorem isFile_iff_content :
    t.isFile path cwd = true ↔ ∃ content, t.content path cwd = .ok content := by
  simp only [isFile_iff, content_eq_ok_iff, PathMap.HasFile]
  constructor
  · rintro ⟨⟨a, content?⟩, hitem, hfile⟩
    obtain ⟨content, rfl⟩ : ∃ content, content? = some content := by
      cases content? with
      | none => cases hfile
      | some content => exact ⟨content, rfl⟩
    exact ⟨content, a, hitem⟩
  · rintro ⟨content, a, hitem⟩
    exact ⟨_, hitem, rfl⟩

/-- A name is listed just if its unit file is an entry of the directory, and the path that is made
of both leads to a file. -/
theorem mem_unitNames_iff : name ∈ t.unitNames bin ↔
    t.find? (Path.resolve bin "/" ++ [name ++ Command.unitSuffix]) ≠ none ∧
      t.isFile (bin ++ "/" ++ (name ++ Command.unitSuffix)) "/" = true := by
  rw [unitNames]
  split
  · next e he =>
    have hno := childNames_eq_error_iff.mp ⟨e, he⟩
    refine iff_of_false List.not_mem_nil fun h => hno ?_
    obtain ⟨n, hn⟩ := Option.ne_none_iff_exists'.mp h.1
    exact hasDirectory_iff.mpr (directoryAt_of_find? hn)
  · next entries hentries =>
    have hlists := lists_of_childNames hentries
    obtain ⟨htail, hwithout⟩ := Text.withoutTail_append name Command.unitSuffix
    rw [Text.mem_sorted, List.mem_map, ← hlists.mem_iff]
    constructor
    · rintro ⟨entry, hentry, rfl⟩
      rw [List.mem_filter, Bool.and_eq_true] at hentry
      obtain ⟨hmem, htail, hfile⟩ := hentry
      rw [← Text.eq_append_of_hasTail htail]
      exact ⟨hmem, hfile⟩
    · rintro ⟨hmem, hfile⟩
      refine ⟨_, List.mem_filter.mpr ⟨hmem, ?_⟩, hwithout⟩
      rw [htail, hfile]
      rfl

/-- Two unit files do not have the same name. -/
theorem ascending_unitNames (t : Tree) (bin : String) : (t.unitNames bin).Pairwise (· < ·) := by
  rw [unitNames]
  split
  · exact List.Pairwise.nil
  · next entries hentries =>
    have hnodup := ((lists_of_childNames hentries).ascending.imp ne_of_lt).filter fun entry =>
      Text.hasTail entry Command.unitSuffix && t.isFile (bin ++ "/" ++ entry) "/"
    refine Text.pairwise_lt_sorted
      (List.Nodup.map_on (fun entry hentry other hother he => ?_) hnodup)
    rw [List.mem_filter, Bool.and_eq_true] at hentry hother
    rw [Text.eq_append_of_hasTail hentry.2.1, he, ← Text.eq_append_of_hasTail hother.2.1]

/-- A name without a slash is listed just if the path that is read for it leads to a file. -/
theorem mem_unitNames_iff_isFile (h : '/' ∉ name.toList) :
    name ∈ t.unitNames bin ↔ t.isFile (Command.unitPath name bin) "/" = true := by
  rw [mem_unitNames_iff, isFile_iff, isFile_iff, Command.resolve_unitPath h, String.append_assoc,
    Path.resolve_below (Command.isProper_unitName h), and_iff_right_iff_imp]
  exact find?_of_hasFile

end Tree

namespace Registry

open Command

variable {r : Registry} {t : Tree} {name bin path text : String}

/-- What the text of a unit file gives: the registered command that is named in its first line, or a
failure for want of the header, or of such a command. -/
inductive Reads (r : Registry) (name path text : String) : Except UnitError Command → Prop where
  | command {rest : List Char} {c : Command} (h : firstLine text = unitHeader.toList ++ rest)
      (hc : r.get? (String.ofList (Text.trim rest)) = some c) : Reads r name path text (.ok c)
  | noHeader (h : ∀ rest, firstLine text ≠ unitHeader.toList ++ rest) :
      Reads r name path text (.error (.noHeader name path))
  | unknownEntry {rest : List Char} (h : firstLine text = unitHeader.toList ++ rest)
      (hc : r.get? (String.ofList (Text.trim rest)) = none) :
      Reads r name path text (.error (.unknownEntry name (String.ofList (Text.trim rest))))

/-- A name that can be that of a command. -/
structure IsName (name : String) : Prop where
  ne_empty : name ≠ ""
  no_slash : '/' ∉ name.toList

theorem isName_iff : IsName name ↔ ¬ (name = "" ∨ '/' ∈ name.toList) := by
  rw [not_or]
  exact ⟨fun h => ⟨h.ne_empty, h.no_slash⟩, fun h => ⟨h.1, h.2⟩⟩

theorem load_of_not_isName (h : ¬ IsName name) (r : Registry) (t : Tree) (bin : String) :
    r.load t name bin = .error (.badName name) := by
  rw [isName_iff, not_not] at h
  rw [load, if_pos h]

/-- A name of a command gives what the text of its unit does. -/
theorem reads_load (h : IsName name)
    (htext : t.content (unitPath name bin) "/" = .ok (.string text)) :
    Reads r name (unitPath name bin) text (r.load t name bin) := by
  rw [load, if_neg (isName_iff.mp h)]
  dsimp only
  rw [htext]
  dsimp only [Json.textFor]
  split
  · next hheader =>
    refine .noHeader fun rest hrest => ?_
    rw [Text.dropStart?_eq_some_iff.mpr hrest] at hheader
    cases hheader
  · next rest hrest =>
    rw [Text.dropStart?_eq_some_iff] at hrest
    split
    · next c hc => exact .command hrest hc
    · next hc => exact .unknownEntry hrest hc

/-- Where the unit of a name holds no text, nothing is read from it. -/
theorem load_of_holdsNoText (h : IsName name) (hno : t.HoldsNoText (unitPath name bin) "/") :
    ∃ e, r.load t name bin = .error (.content e) := by
  obtain ⟨content, hcontent, htext⟩ := hno
  obtain ⟨e, he⟩ : ∃ e, content.textFor "split" = .error e := by
    cases content with
    | string text => exact absurd rfl (htext text)
    | _ => exact ⟨_, rfl⟩
  refine ⟨e, ?_⟩
  rw [load, if_neg (isName_iff.mp h)]
  dsimp only
  rw [hcontent]
  dsimp only
  rw [he]

/-- A name that gives a command is listed. -/
theorem mem_unitNames_of_load {c : Command} (h : r.load t name bin = .ok c) :
    name ∈ t.unitNames bin := by
  have hname : IsName name := by
    by_contra hbad
    rw [load_of_not_isName hbad] at h
    cases h
  rw [Tree.mem_unitNames_iff_isFile hname.no_slash, Tree.isFile_iff_content]
  rw [load, if_neg (isName_iff.mp hname)] at h
  dsimp only at h
  split at h
  · cases h
  · next content hcontent => exact ⟨content, hcontent⟩

/-- A name has a unit with a text, and gives what that text does. -/
def LoadsUnit (r : Registry) (t : Tree) (name bin : String) : Prop :=
  ∃ text, t.content (unitPath name bin) "/" = .ok (.string text) ∧
    Reads r name (unitPath name bin) text (r.load t name bin)

/-- A listed name that can be that of a command has a unit. It gives what the text of the unit does,
unless the unit holds no text. -/
theorem loadsUnit_of_mem (h : IsName name) (hmem : name ∈ t.unitNames bin)
    (htext : ¬ t.HoldsNoText (unitPath name bin) "/") : r.LoadsUnit t name bin := by
  rw [Tree.mem_unitNames_iff_isFile h.no_slash, Tree.isFile_iff_content] at hmem
  obtain ⟨content, hcontent⟩ := hmem
  obtain ⟨text, rfl⟩ : ∃ text, content = .string text := by
    by_contra hno
    exact htext ⟨content, hcontent, not_exists.mp hno⟩
  exact ⟨text, hcontent, reads_load h hcontent⟩

/-- Only a name that can be that of a command has a unit whose text counts. -/
theorem isName_of_loadsUnit (h : r.LoadsUnit t name bin) : IsName name := by
  obtain ⟨text, -, hreads⟩ := h
  by_contra hbad
  rw [load_of_not_isName hbad] at hreads
  cases hreads

/-- All listed names give what the texts of their units do just if each of them can be the name of a
command, and no unit holds anything else than a text. -/
theorem forall_loadsUnit_iff : (∀ name ∈ t.unitNames bin, r.LoadsUnit t name bin) ↔
    t.isFile (unitPath "" bin) "/" = false ∧ (∀ name ∈ t.unitNames bin, '/' ∉ name.toList) ∧
      ∀ name, IsName name → ¬ t.HoldsNoText (unitPath name bin) "/" := by
  have hempty : "" ∈ t.unitNames bin ↔ t.isFile (unitPath "" bin) "/" = true :=
    Tree.mem_unitNames_iff_isFile (by decide)
  constructor
  · intro hall
    refine ⟨?_, fun name hmem => (isName_of_loadsUnit (hall name hmem)).no_slash, ?_⟩
    · by_contra hfile
      have hmem := hempty.mpr (eq_true_of_ne_false hfile)
      exact (isName_of_loadsUnit (hall "" hmem)).ne_empty rfl
    · rintro name hname ⟨content, hcontent, hno⟩
      have hmem : name ∈ t.unitNames bin := (Tree.mem_unitNames_iff_isFile hname.no_slash).mpr
        (Tree.isFile_iff_content.mpr ⟨content, hcontent⟩)
      obtain ⟨text, htext, -⟩ := hall name hmem
      rw [hcontent, Except.ok.injEq] at htext
      exact hno text htext
  · rintro ⟨hfile, hslash, htext⟩ name hmem
    have hname : IsName name := by
      refine ⟨?_, hslash name hmem⟩
      rintro rfl
      rw [hempty, hfile] at hmem
      cases hmem
    exact loadsUnit_of_mem hname hmem (htext name hname)

/-- What is listed is in strictly ascending order, and has every name that gives a command. A listed
name gives what the text of its unit does, unless it cannot be the name of a command, or its unit
holds no text. So all listed names give what the texts of their units do just if no unit file is
called by the ending alone, no listed name holds a slash, which none does in a tree of proper names,
and all units hold texts. -/
theorem lists_what_it_loads (r : Registry) (t : Tree) (bin : String) :
    (t.unitNames bin).Pairwise (· < ·) ∧
      (∀ name c, r.load t name bin = .ok c → name ∈ t.unitNames bin) ∧
      (∀ name ∈ t.unitNames bin,
        (¬ IsName name ∧ r.load t name bin = .error (.badName name)) ∨
          (IsName name ∧ t.HoldsNoText (unitPath name bin) "/" ∧
            ∃ e, r.load t name bin = .error (.content e)) ∨
          (IsName name ∧ r.LoadsUnit t name bin)) ∧
      ((∀ name ∈ t.unitNames bin, r.LoadsUnit t name bin) ↔
        t.isFile (unitPath "" bin) "/" = false ∧ (∀ name ∈ t.unitNames bin, '/' ∉ name.toList) ∧
          ∀ name, IsName name → ¬ t.HoldsNoText (unitPath name bin) "/") ∧
      (t.Addressable → ∀ name ∈ t.unitNames bin, '/' ∉ name.toList) := by
  refine ⟨t.ascending_unitNames bin, fun name c => mem_unitNames_of_load, fun name hmem => ?_,
    forall_loadsUnit_iff, fun ha name hmem hslash => ?_⟩
  · by_cases hname : IsName name
    · by_cases hno : t.HoldsNoText (unitPath name bin) "/"
      · exact .inr (.inl ⟨hname, hno, load_of_holdsNoText hname hno⟩)
      · exact .inr (.inr ⟨hname, loadsUnit_of_mem hname hmem hno⟩)
    · exact .inl ⟨hname, load_of_not_isName hname r t bin⟩
  · refine (ha.isProper (Tree.mem_unitNames_iff.mp hmem).1).no_slash ?_
    rw [String.toList_append]
    exact List.mem_append_left _ hslash

/-- A tree with a unit file that is called by the ending alone, one that holds a list, and one with
a slash in its name. -/
def mislaid : Tree :=
  .ofNode (.directory (.ofDirectory 0)
    [("bin", .directory (.ofDirectory 0)
      [(".cmd", .file (.ofFile 0) (.string "#!py-sh ls\n")),
        ("list.cmd", .file (.ofFile 0) (.array [])),
        ("a", .directory (.ofDirectory 0)
          [("b.cmd", .file (.ofFile 0) (.string "#!py-sh ls\n"))]),
        ("a/b.cmd", .file (.ofFile 0) (.string "#!py-sh ls\n"))])])

/-- Names are listed that do not give what the first line of a unit names, nor fail for it. -/
theorem lists_what_it_does_not_load :
    ("" ∈ mislaid.unitNames "/bin" ∧ builtIns.load mislaid "" "/bin" = .error (.badName "")) ∧
      ("list" ∈ mislaid.unitNames "/bin" ∧
        ∃ e, builtIns.load mislaid "list" "/bin" = .error (.content e)) ∧
      "a/b" ∈ mislaid.unitNames "/bin" ∧
        builtIns.load mislaid "a/b" "/bin" = .error (.badName "a/b") := by
  have hlist : mislaid.HoldsNoText (unitPath "list" "/bin") "/" :=
    ⟨.array [], rfl, fun text htext => by cases htext⟩
  refine ⟨⟨Tree.mem_unitNames_iff.mpr (by decide +kernel), rfl⟩,
    ⟨Tree.mem_unitNames_iff.mpr (by decide +kernel), ?_⟩,
    Tree.mem_unitNames_iff.mpr (by decide +kernel), rfl⟩
  exact load_of_holdsNoText (isName_iff.mpr (by decide)) hlist

end Registry

end TreeShell
