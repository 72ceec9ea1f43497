import TreeShell.Proofs.Tree.Listing
import TreeShell.Proofs.Tree.Names
import TreeShell.Proofs.Volume.Requests

/-!
# Entries that are listed and reached

As long as the names of a tree are proper, each entry that is listed can be reached by its name and
by a path. Names get into a tree with its record, and with what is made; working directories are
taken as they are, so one that is not straight can make a name that nothing leads to.
-/

namespace TreeShell

namespace Tree

variable {t : Tree} {path name : String} {names : List String}

/-- How an entry that is listed at a path, a node with a number, can be reached. -/
structure Reaches (t : Tree) (path name : String) (n : Nat) (i : Inode) : Prop where
  /-- The entry is there. -/
  there : t.lookup (Path.resolve path "/" ++ [name]) = some (n, i)
  /-- A path leads to the entry just if its name is proper. -/
  by_path : (∃ p, Path.resolve p "/" = Path.resolve path "/" ++ [name]) ↔ Path.IsProper name
  /-- A proper name leads to the entry, from the path as a working directory, just if the path is
  straight. -/
  by_name : Path.IsProper name →
    (t.lookup (Path.resolve name path) = some (n, i) ↔ Path.IsStraight path)
  /-- What is told about the name then is what is told about the entry. -/
  stat_eq : Path.IsProper name → Path.IsStraight path →
    t.stat name path = describe (Path.resolve path "/" ++ [name]) i

/-- From a straight path as a working directory a proper name leads to the entry at the path. -/
theorem resolve_of_isStraight (hpath : Path.IsStraight path) (hname : Path.IsProper name) :
    Path.resolve name path = Path.resolve path "/" ++ [name] := by
  rw [Path.resolve_of_isProper hname, hpath]

/-- Each name that is listed reaches an entry. -/
theorem reaches_of_childNames (h : t.WellFormed) (hlist : t.childNames path "/" = .ok names)
    (hmem : name ∈ names) : ∃ n i, t.Reaches path name n i := by
  obtain ⟨n, hn⟩ :=
    Option.ne_none_iff_exists'.mp (((lists_of_childNames hlist).mem_iff name).mp hmem)
  obtain ⟨i, -, hl⟩ := h.exists_lookup hn
  refine ⟨n, i, hl, ?_, fun hname => ?_, fun hname hpath => ?_⟩
  · rw [Path.exists_resolve_iff]
    constructor
    · exact fun hp => hp name (List.mem_append_right _ List.mem_cons_self)
    · intro hname s hs
      rcases List.mem_append.mp hs with hs | hs
      · exact Path.proper_resolve_root path s hs
      · exact List.mem_singleton.mp hs ▸ hname
  · constructor
    · -- no node is found at two places
      intro he
      have hplace := h.find?_injective (lookup_eq_some_iff.mp he).1 hn
      rw [Path.resolve_of_isProper hname] at hplace
      exact List.append_cancel_right hplace
    · exact fun hpath => by rw [resolve_of_isStraight hpath hname, hl]
  · rw [stat, resolve_of_isStraight hpath hname, hl]

end Tree

namespace Volume

variable {v : Volume}

/-- A request does not make a place of other than proper segments. -/
def NamesProperly (v : Volume) (r : Request) : Prop :=
  ∀ e, r.operation = .edit e → e.Permitted r.cwd v.tree.item? →
    ∀ s ∈ e.made r.cwd v.tree.item?, Path.IsProper s

/-- A tree of proper names stays one just if the request names properly. -/
theorem addressable_request_iff (h : v.tree.WellFormed) (ha : v.tree.Addressable) (r : Request) :
    (v.request r).2.tree.Addressable ↔ v.NamesProperly r := by
  rw [tree_request, NamesProperly]
  cases r.operation with
  | edit e =>
    rw [Tree.addressable_perform_iff h ha]
    constructor
    · rintro hmade e' he hp
      cases he
      exact hmade hp
    · exact fun hmade => hmade e rfl
  | save => exact iff_of_true ha fun e he => nomatch he
  | ask q => exact iff_of_true ha fun e he => nomatch he

/-- From a straight working directory every request names properly. -/
theorem namesProperly_of_isStraight (h : v.tree.WellFormed) (ha : v.tree.Addressable) {r : Request}
    (hr : Path.IsStraight r.cwd) : v.NamesProperly r :=
  fun _ _ hp => Edit.proper_made ((Tree.addressable_iff h).mp ha) hr hp

/-- Each entry can be addressed after any requests from canonical directories. -/
theorem addressable_serve (h : v.tree.WellFormed) (ha : v.tree.Addressable) (rs : List Request)
    (hrs : ∀ r ∈ rs, Path.IsStraight r.cwd) : (v.serve rs).2.tree.Addressable := by
  refine (serve_induction (P := fun v => v.tree.WellFormed ∧ v.tree.Addressable) ⟨h, ha⟩ rs ?_).2
  rintro w r hr ⟨hw, hwa⟩
  refine ⟨wellFormed_request hw r, (addressable_request_iff hw hwa r).mpr ?_⟩
  exact namesProperly_of_isStraight hw hwa (hrs r hr)

/-- The names of a tree are proper all along some requests just if they are at first, and each
request names properly when its turn comes. -/
theorem addressable_serve_iff (h : v.tree.WellFormed) (rs : List Request) :
    (∀ rs', rs' <+: rs → (v.serve rs').2.tree.Addressable) ↔
      v.tree.Addressable ∧ ∀ rs' r, rs' ++ [r] <+: rs → (v.serve rs').2.NamesProperly r := by
  induction rs generalizing v with
  | nil =>
    constructor
    · refine fun hall => ⟨hall [] (List.prefix_refl []), fun rs' r hr => ?_⟩
      exact absurd (List.prefix_nil.mp hr) (List.concat_ne_nil r rs')
    · rintro ⟨ha, -⟩ rs' hrs
      rw [List.prefix_nil.mp hrs]
      exact ha
  | cons r rs ih =>
    have hrest := ih (wellFormed_request h r)
    constructor
    · intro hall
      have ha : v.tree.Addressable := hall [] List.nil_prefix
      obtain ⟨hr, hlater⟩ :=
        hrest.mp fun rs' hrs => hall (r :: rs') (List.cons_prefix_cons.mpr ⟨rfl, hrs⟩)
      refine ⟨ha, fun rs' r' hrs => ?_⟩
      cases rs' with
      | nil =>
        obtain ⟨rfl, -⟩ := List.cons_prefix_cons.mp hrs
        exact (addressable_request_iff h ha r').mp hr
      | cons s rs' =>
        obtain ⟨rfl, hrs'⟩ := List.cons_prefix_cons.mp hrs
        exact hlater rs' r' hrs'
    · rintro ⟨ha, hnames⟩ rs' hrs
      have hfirst : v.NamesProperly r :=
        hnames [] r (List.cons_prefix_cons.mpr ⟨rfl, List.nil_prefix⟩)
      cases rs' with
      | nil => exact ha
      | cons s rs' =>
        obtain ⟨rfl, hrs'⟩ := List.cons_prefix_cons.mp hrs
        refine hrest.mpr ⟨(addressable_request_iff h ha s).mpr hfirst, fun rs'' r' hr' => ?_⟩ rs'
          hrs'
        exact hnames (s :: rs'') r' (List.cons_prefix_cons.mpr ⟨rfl, hr'⟩)

/-- All names stay proper just as long as none else is made: from straight working directories none
is. At any time, what is listed at a path is there, a path leads to it just if its name is proper,
and then the name leads to it from the path as a working directory just if the path is straight. -/
theorem reaches_what_it_lists (h : v.Fresh) (rs : List Request) :
    (v.tree = Tree.empty v.clock → v.tree.Addressable) ∧
      ((∀ rs', rs' <+: rs → (v.serve rs').2.tree.Addressable) ↔
        v.tree.Addressable ∧ ∀ rs' r, rs' ++ [r] <+: rs → (v.serve rs').2.NamesProperly r) ∧
      (v.tree.Addressable → (∀ r ∈ rs, Path.IsStraight r.cwd) →
        (v.serve rs).2.tree.Addressable) ∧
      ∀ path names name, (v.serve rs).2.tree.childNames path "/" = .ok names → name ∈ names →
        ∃ n i, (v.serve rs).2.tree.Reaches path name n i := by
  refine ⟨fun he => ?_, addressable_serve_iff h.wellFormed rs,
    fun ha hrs => addressable_serve h.wellFormed ha rs hrs,
    fun path names name => Tree.reaches_of_childNames (wellFormed_serve h rs)⟩
  rw [he]
  exact Tree.addressable_empty v.clock

/-- A volume in which directories and a file were made, from straight working directories. -/
def orderly : Volume :=
  ((unsaved (Tree.empty 0) 0).serve
    [⟨1, "/", .edit (.makeDirectories "a/b")⟩,
      ⟨2, "/a", .edit (.write "../a/f" (.string "x") false)⟩]).2

/-- Each entry of this tree can be addressed. -/
theorem addressable_orderly : orderly.tree.Addressable :=
  addressable_serve (v := unsaved (Tree.empty 0) 0) (Tree.wellFormed_empty 0)
    (Tree.addressable_empty 0) _ (by decide +kernel)

/-- The names are proper, and the file is found where it is listed. -/
theorem reaches_what_it_lists_orderly :
    orderly.tree.Addressable ∧
      ∃ names, orderly.tree.childNames "/a" "/" = .ok names ∧ "f" ∈ names ∧
        ∃ n i, orderly.tree.Reaches "/a" "f" n i := by
  have hfresh : (unsaved (Tree.empty 0) 0).Fresh := Or.inl rfl
  obtain ⟨hempty, -, hstays, hreach⟩ := reaches_what_it_lists hfresh
    [⟨1, "/", .edit (.makeDirectories "a/b")⟩,
      ⟨2, "/a", .edit (.write "../a/f" (.string "x") false)⟩]
  have hdir : orderly.tree.item?.HasDirectory (Path.resolve "/a" "/") := ⟨_, rfl, rfl⟩
  obtain ⟨names, hnames⟩ := Tree.exists_childNames hdir
  have hmem : "f" ∈ names := by
    rw [(Tree.lists_of_childNames hnames).mem_iff]
    decide +kernel
  exact ⟨hstays (hempty rfl) (by decide +kernel), names, hnames, hmem,
    hreach "/a" names "f" hnames hmem⟩

/-- A volume in which a file was made at a dot, from a working directory of two dots. -/
def crooked : Volume := ((unsaved (Tree.empty 0) 0).serve [⟨1, "..", .edit (.touch ".")⟩]).2

/-- A volume from a record with a name that holds a slash. -/
def slashed : Volume :=
  unsaved (.ofNode (.directory (.ofDirectory 0) [("a/b", .file (.ofFile 0) (.string ""))])) 0

/-- The tree of this volume is read from a record. -/
theorem fresh_slashed : slashed.Fresh :=
  Or.inr ⟨.object [("type", .string "directory"),
    ("children", .object [("a/b", .object [("type", .string "file")])])], rfl⟩

/-- Improper names are made and read, and listed; what is found by such a name is another node, or
nothing. Nothing is found, either, by a proper name from a path that goes down and up again. -/
theorem lists_what_is_not_reached :
    (crooked.tree.childNames "/" "/" = .ok [".."] ∧ crooked.tree.find? [".."] = some 1 ∧
        crooked.tree.find? (Path.resolve ".." "/") = some 0) ∧
      (slashed.Fresh ∧ slashed.tree.childNames "/" "/" = .ok ["a/b"] ∧
        slashed.tree.stat "a/b" "/" = .error (.notFound "a/b")) ∧
      orderly.tree.childNames "/a/.." "/" = .ok ["a"] ∧
        orderly.tree.stat "a" "/a/.." = .error (.notFound "a") := by
  exact ⟨⟨congrArg Except.ok (Text.sorted_singleton ".."), rfl, rfl⟩,
    ⟨fresh_slashed, congrArg Except.ok (Text.sorted_singleton "a/b"), rfl⟩,
    congrArg Except.ok (Text.sorted_singleton "a"), rfl⟩

end Volume

end TreeShell
