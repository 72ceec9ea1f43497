import TreeShell.Proofs.Line.Ending
import TreeShell.Proofs.Volume.Addressing
import TreeShell.Proofs.Volume.Units

/-!
# What a line is completed with

The end of a line asks for the names that begin with what is there of one: names with a unit file at
a command, names of entries at a path. What is offered are just these names. A single one is put in
whole, with what should follow it; several are listed in order.
-/

namespace TreeShell

/-- Two lists in strictly ascending order that have the same members are the same. -/
theorem Text.eq_of_ascending {l l' : List String} (hl : l.Pairwise (· < ·))
    (hl' : l'.Pairwise (· < ·)) (h : ∀ s, s ∈ l ↔ s ∈ l') : l = l' := by
  have hperm : l.Perm l' :=
    (List.perm_ext_iff_of_nodup (hl.imp ne_of_lt) (hl'.imp ne_of_lt)).mpr h
  exact hperm.eq_of_pairwise (fun _ _ _ _ hab hba => absurd hab (lt_asymm hba)) hl hl'

/-- What the end of a line asks for. -/
structure Choice where
  /-- What stands before the name in the word. -/
  base : List Char
  /-- What is there of the name. -/
  start : List Char
  /-- The names that there are. -/
  IsName : String → Prop
  /-- Whether a name is that of a directory, so that the word can go on. -/
  goesOn : String → Bool

namespace Choice

variable {c : Choice} {line : String} {bare : List String}

/-- A name that the end of the line could become. -/
def Fits (c : Choice) (name : String) : Prop := c.IsName name ∧ c.start <+: name.toList

/-- What is made of the names that fit. -/
def outcome (c : Choice) (line : String) : List String → Option Completion
  | [] => none
  | [name] =>
    some (.complete (line ++ String.ofList (name.toList.drop c.start.length) ++
      if c.goesOn name then "/" else " "))
  | names =>
    some (.suggestions (names.map fun name => if c.goesOn name then name ++ "/" else name)
      (String.ofList c.base))

/-- Several names that fit are suggested, with a slash behind those that go on. -/
theorem outcome_of_several (h : 2 ≤ bare.length) :
    c.outcome line bare =
      some (.suggestions (bare.map fun name => if c.goesOn name then name ++ "/" else name)
        (String.ofList c.base)) := by
  match bare, h with
  | _ :: _ :: _, _ => rfl

/-- What is made of names depends only on what is there of them, and on which of them go on. -/
theorem outcome_congr {c' : Choice} (hbase : c.base = c'.base) (hstart : c.start = c'.start)
    (hgoesOn : ∀ name ∈ bare, c.goesOn name = c'.goesOn name) :
    c.outcome line bare = c'.outcome line bare := by
  match bare with
  | [] => rfl
  | [name] => rw [outcome, outcome, hstart, hgoesOn name List.mem_cons_self]
  | first :: second :: others =>
    rw [outcome_of_several (by simp), outcome_of_several (by simp), hbase,
      List.map_congr_left fun name hname => by rw [hgoesOn name hname]]

/-- What is offered is told by the names that fit, if it is made of all of them, in order. -/
theorem outcome_iff (hall : ∀ name, c.Fits name ↔ name ∈ bare) (hbare : bare.Pairwise (· < ·)) :
    (c.outcome line bare = none ↔ ∀ name, ¬ c.Fits name) ∧
      (∀ v, c.outcome line bare = some (.complete v) ↔
        ∃ name rest, (∀ other, c.Fits other ↔ other = name) ∧ name.toList = c.start ++ rest ∧
          v = line ++ String.ofList rest ++ if c.goesOn name then "/" else " ") ∧
      ∀ names base, c.outcome line bare = some (.suggestions names base) ↔
        ∃ bare' : List String, 2 ≤ bare'.length ∧ bare'.Pairwise (· < ·) ∧
          (∀ name, c.Fits name ↔ name ∈ bare') ∧
          names = bare'.map (fun name => if c.goesOn name then name ++ "/" else name) ∧
          base = String.ofList c.base := by
  -- the names that fit are in one list in ascending order only
  have hunique : ∀ bare' : List String, bare'.Pairwise (· < ·) →
      (∀ name, c.Fits name ↔ name ∈ bare') → bare' = bare := fun bare' hbare' hall' =>
    Text.eq_of_ascending hbare' hbare fun name => (hall' name).symm.trans (hall name)
  cases bare with
  | nil =>
    have hnone : ∀ name, ¬ c.Fits name := fun name hfits => List.not_mem_nil ((hall name).mp hfits)
    refine ⟨iff_of_true rfl hnone, fun v => iff_of_false (fun he => nomatch he) ?_,
      fun names base => iff_of_false (fun he => nomatch he) ?_⟩
    · rintro ⟨name, rest, honly, -⟩
      exact hnone name ((honly name).mpr rfl)
    · rintro ⟨bare', htwo, hbare', hall', -⟩
      rw [hunique bare' hbare' hall'] at htwo
      cases htwo
  | cons first others =>
    have hfirst : c.Fits first := (hall first).mpr List.mem_cons_self
    cases others with
    | nil =>
      have honly : ∀ other, c.Fits other ↔ other = first := fun other =>
        (hall other).trans List.mem_singleton
      obtain ⟨rest, hrest⟩ := hfirst.2
      have hdrop : first.toList.drop c.start.length = rest := by rw [← hrest, List.drop_left]
      refine ⟨iff_of_false (fun he => nomatch he) fun hno => hno first hfirst, fun v => ?_,
        fun names base => iff_of_false (fun he => nomatch he) ?_⟩
      · rw [outcome, hdrop, Option.some.injEq, Completion.complete.injEq]
        constructor
        · rintro rfl
          exact ⟨first, rest, honly, hrest.symm, rfl⟩
        · rintro ⟨name, rest', honly', hrest', rfl⟩
          obtain rfl : first = name := (honly' first).mp hfirst
          rw [hrest', List.append_cancel_left_eq] at hrest
          rw [hrest]
      · rintro ⟨bare', htwo, hbare', hall', -⟩
        rw [hunique bare' hbare' hall'] at htwo
        exact absurd htwo (by simp)
    | cons second others =>
      have hsecond : c.Fits second := (hall second).mpr (List.mem_cons_of_mem _ List.mem_cons_self)
      have hlt : first < second := (List.pairwise_cons.mp hbare).1 second List.mem_cons_self
      have htwo : 2 ≤ (first :: second :: others).length := by simp
      rw [outcome_of_several htwo]
      refine ⟨iff_of_false (fun he => nomatch he) fun hno => hno first hfirst,
        fun v => iff_of_false (fun he => nomatch he) ?_, fun names base => ?_⟩
      · rintro ⟨name, rest, honly, -⟩
        exact hlt.ne (((honly first).mp hfirst).trans ((honly second).mp hsecond).symm)
      · rw [Option.some.injEq, Completion.suggestions.injEq]
        constructor
        · rintro ⟨rfl, rfl⟩
          exact ⟨first :: second :: others, htwo, hbare, hall, rfl, rfl⟩
        · rintro ⟨bare', -, hbare', hall', rfl, rfl⟩
          rw [hunique bare' hbare' hall']
          exact ⟨rfl, rfl⟩

end Choice

/-- A variable with a default that is not empty has a value that is not. -/
theorem Environment.nonEmptyOr_ne_empty (env : Environment) (name : String) {default : String}
    (h : default ≠ "") : env.nonEmptyOr name default ≠ "" := by
  unfold nonEmptyOr
  split
  · exact h
  · exact h
  · next value hne _ => exact hne

/-- Whether there is a directory at a place. -/
def PathMap.isDirectory (m : PathMap) (p : Segments) : Bool := (m p).any Item.isDirectory

/-- A path is a directory just if the item there is. -/
theorem Tree.isDirectory_eq (t : Tree) (path cwd : String) :
    t.isDirectory path cwd = t.item?.isDirectory (Path.resolve path cwd) := by
  rw [isDirectory, PathMap.isDirectory, item?_eq_map_lookup]
  cases t.lookup (Path.resolve path cwd) with
  | none => rfl
  | some e => exact (Inode.isDirectory_item e.2).symm

namespace Session

variable {s : Session} {line : String}

/-- There is a unit file for a name. -/
def HasUnit (s : Session) (name : String) : Prop :=
  s.volume.tree.item?.HasFile (Path.resolve s.bin "/" ++ [name ++ Command.unitSuffix])

/-- The directory that the base of a path stands for, with the home directory for a tilde. -/
def directoryOf (s : Session) (base : List Char) : Segments :=
  Path.resolve (s.expandHome (String.ofList base)) s.cwd

/-- What a command at the end of a line asks for. -/
def commandChoice (s : Session) (token : List Char) : Choice where
  base := []
  start := token
  IsName := s.HasUnit
  goesOn _ := false

/-- What a path at the end of a line asks for. -/
def pathChoice (s : Session) (token : List Char) : Choice where
  base := PathEnd.basePart token
  start := PathEnd.namePart token
  IsName name := s.volume.tree.find? (s.directoryOf (PathEnd.basePart token) ++ [name]) ≠ none
  goesOn name := s.volume.tree.item?.isDirectory (s.directoryOf (PathEnd.basePart token) ++ [name])

/-- The names at a path are those of the entries of the directory. -/
theorem isName_pathChoice {token : List Char} {name : String} :
    (s.pathChoice token).IsName name ↔
      s.volume.tree.find? (s.directoryOf (PathEnd.basePart token) ++ [name]) ≠ none :=
  Iff.rfl

/-- A name at a path goes on if its entry is a directory. -/
theorem goesOn_pathChoice (s : Session) (token : List Char) (name : String) :
    (s.pathChoice token).goesOn name =
      s.volume.tree.item?.isDirectory (s.directoryOf (PathEnd.basePart token) ++ [name]) := by
  rw [pathChoice]

/-- The directory that is listed for a path at the end of a line: dots that the path leaves of the
working directory are folded then. -/
def listedOf (s : Session) (base : List Char) : Segments :=
  Path.resolve (Path.format (s.directoryOf base)) "/"

/-- From a straight working directory it is the one that the base stands for. -/
theorem listedOf_eq (hcwd : Path.IsStraight s.cwd) (base : List Char) :
    s.listedOf base = s.directoryOf base :=
  Path.resolve_format (hcwd.proper_resolve _) "/"

/-- What a path at the end of a line asks for, as it is looked up: which names go on is asked from
the path of the directory as a working directory, where no dots are folded. -/
def listedChoice (s : Session) (token : List Char) : Choice where
  base := PathEnd.basePart token
  start := PathEnd.namePart token
  IsName name := s.volume.tree.find? (s.listedOf (PathEnd.basePart token) ++ [name]) ≠ none
  goesOn name :=
    s.volume.tree.isDirectory name (Path.format (s.directoryOf (PathEnd.basePart token)))

/-- What the end of a line asks for. -/
def choice (s : Session) (line : List Char) : Choice :=
  if LineEnd.AtCommand line then s.commandChoice (LineEnd.token line)
  else s.pathChoice (LineEnd.token line)

/-! ## Names -/

/-- The names that match are those that begin with what was typed. -/
theorem mem_matching {start : List Char} {names : List String} {name : String} :
    name ∈ matching start names ↔ name ∈ names ∧ start <+: name.toList := by
  rw [matching, List.mem_filter, Text.startsWith, Option.isSome_iff_exists]
  refine and_congr_right fun _ => ?_
  simp only [Text.dropStart?_eq_some_iff]
  exact exists_congr fun rest => eq_comm

/-- Names in order are in order when only those that match are left. -/
theorem pairwise_matching (start : List Char) {names : List String}
    (h : names.Pairwise (· < ·)) : (matching start names).Pairwise (· < ·) :=
  h.filter _

/-- The commands that are there are the names with a unit file, in order. -/
theorem available_spec (ha : s.volume.tree.Addressable) :
    s.available.Pairwise (· < ·) ∧ ∀ name, name ∈ s.available ↔ s.HasUnit name := by
  refine ⟨s.volume.tree.ascending_unitNames s.bin, fun name => ?_⟩
  rw [available, Tree.mem_unitNames_iff, Tree.isFile_iff, HasUnit, String.append_assoc]
  constructor
  · rintro ⟨hfind, hfile⟩
    rwa [Path.resolve_below (ha.isProper hfind)] at hfile
  · intro hunit
    have hfind := Tree.find?_of_hasFile hunit
    rw [Path.resolve_below (ha.isProper hfind)]
    exact ⟨hfind, hunit⟩

/-! ## Places -/

/-- The home directory is never the empty path. -/
theorem home_ne_empty (s : Session) : s.home ≠ "" :=
  s.env.nonEmptyOr_ne_empty "HOME" (by decide)

/-- A path begins with a tilde for the home directory. -/
def HasTilde (path : String) : Prop := path = "~" ∨ Text.hasStart path "~/" = true

instance (path : String) : Decidable (HasTilde path) :=
  inferInstanceAs (Decidable (path = "~" ∨ Text.hasStart path "~/" = true))

/-- A path begins with a tilde for the home directory if it is one, or has one before its first
slash. -/
theorem hasTilde_iff {path : String} :
    HasTilde path ↔ path.toList = ['~'] ∨ ∃ rest, path.toList = '~' :: '/' :: rest := by
  rw [HasTilde, Text.hasStart_iff, ← String.toList_inj]
  rfl

/-- A path without a tilde is left as it is. -/
theorem expandHome_of_not_hasTilde {path : String} (h : ¬ HasTilde path) (s : Session) :
    s.expandHome path = path :=
  if_neg h

/-- What comes behind a path stays behind it when a tilde is taken for the home directory, unless it
makes one of the path. -/
theorem expandHome_append {path : String} (hne : path ≠ "") {rest : String}
    (h : HasTilde (path ++ rest) ↔ HasTilde path) (s : Session) :
    s.expandHome (path ++ rest) = s.expandHome path ++ rest := by
  by_cases htilde : HasTilde path
  · have hwhole : s.expandHome (path ++ rest) =
        s.home ++ String.ofList ((path ++ rest).toList.drop 1) := if_pos (h.mpr htilde)
    have hpath : s.expandHome path = s.home ++ String.ofList (path.toList.drop 1) := if_pos htilde
    obtain ⟨c, cs, hcs⟩ := List.exists_cons_of_ne_nil (mt String.toList_eq_nil_iff.mp hne)
    rw [hwhole, hpath, ← String.toList_inj]
    simp [hcs]
  · rw [expandHome_of_not_hasTilde htilde, expandHome_of_not_hasTilde (mt h.mp htilde)]

/-- A slash behind a path makes no tilde. -/
theorem hasTilde_slash_iff {path : String} (h : path ≠ "") :
    HasTilde (path ++ "/") ↔ HasTilde path := by
  obtain ⟨c, cs, hcs⟩ := List.exists_cons_of_ne_nil (mt String.toList_eq_nil_iff.mp h)
  have hslash : (path ++ "/").toList = c :: (cs ++ ['/']) := by
    rw [String.toList_append, hcs]
    rfl
  rw [hasTilde_iff, hasTilde_iff, hslash, hcs]
  cases cs with
  | nil => simp
  | cons d cs => simp

/-- A slash behind a path stays behind it when a tilde is taken for the home directory. -/
theorem expandHome_slash {path : String} (h : path ≠ "") (s : Session) :
    s.expandHome (path ++ "/") = s.expandHome path ++ "/" :=
  expandHome_append h (hasTilde_slash_iff h) s

/-- A path that is not empty stays so with the home directory in place of a tilde. -/
theorem expandHome_ne_empty {path : String} (h : path ≠ "") (s : Session) :
    s.expandHome path ≠ "" := by
  rw [expandHome]
  split
  · exact fun he => s.home_ne_empty (String.append_eq_empty_iff.mp he).1
  · exact h

/-- The directory that is looked up for a path is the one that its base stands for. -/
theorem resolve_directory (s : Session) (word : List Char) :
    Path.resolve (s.expandHome (String.ofList (PathEnd.of word).directory)) s.cwd =
      s.directoryOf (PathEnd.basePart word) := by
  rw [directoryOf]
  rcases PathEnd.of_cases word with ⟨hbase, hof⟩ | ⟨hbase, hof⟩ | ⟨before, hne, hbase, hof⟩
  · -- neither a dot nor nothing leads away from the working directory
    have hdot : s.expandHome (String.ofList ['.']) = "." := if_neg (by decide)
    have hnone : s.expandHome (String.ofList []) = "" := if_neg (by decide)
    rw [hof, hbase, hdot, hnone, Path.resolve, Path.resolve, if_neg (by decide), if_neg (by decide)]
    have hparts : Path.parts "." = ["."] ∧ Path.parts "" = [""] := by decide
    rw [hparts.1, hparts.2]
    rfl
  · rw [hof, hbase]
  · have hpath : String.ofList before ≠ "" := by
      rw [Ne, String.ofList_eq_empty_iff]
      exact hne
    have hslash : String.ofList (before ++ ['/']) = String.ofList before ++ "/" :=
      String.ofList_append
    rw [hof, hbase, hslash, expandHome_slash hpath,
      Path.resolve_slash (expandHome_ne_empty hpath s)]

/-! ## What is offered -/

/-- A name put in place of what is there of it only adds to the end of the line. -/
theorem append_name (before base : List Char) {start : List Char} {name : String}
    (h : start <+: name.toList) :
    String.ofList before ++ String.ofList base ++ name =
      String.ofList (before ++ (base ++ start)) ++
        String.ofList (name.toList.drop start.length) := by
  obtain ⟨rest, hrest⟩ := h
  have hdrop : name.toList.drop start.length = rest := by rw [← hrest, List.drop_left]
  rw [hdrop, ← String.toList_inj]
  simp only [String.toList_append, String.toList_ofList, List.append_assoc, hrest]

/-- What a command is completed with is made of the names with a unit file that fit. -/
theorem completeCommand_eq (ha : s.volume.tree.Addressable) (before token : List Char) :
    ∃ bare : List String, bare.Pairwise (· < ·) ∧
      (∀ name, (s.commandChoice token).Fits name ↔ name ∈ bare) ∧
      s.completeCommand ⟨before, token, true⟩ =
        (s.commandChoice token).outcome (String.ofList (before ++ token)) bare := by
  obtain ⟨havailable, hunit⟩ := available_spec ha
  have hascending := pairwise_matching token havailable
  refine ⟨_, hascending, fun name => ?_, ?_⟩
  · rw [mem_matching, hunit, Choice.Fits]
    rfl
  rw [completeCommand]
  dsimp only
  cases hnames : matching token s.available with
  | nil => rfl
  | cons first others =>
    rw [hnames] at hascending
    cases others with
    | nil =>
      have hfirst : first ∈ matching token s.available := hnames ▸ List.mem_cons_self
      have happend := append_name before [] (mem_matching.mp hfirst).2
      rw [String.ofList_nil, String.append_empty, List.nil_append] at happend
      dsimp only
      rw [happend]
      rfl
    | cons second others =>
      rw [Choice.outcome_of_several (by simp)]
      dsimp only
      rw [Text.sorted_eq (List.Perm.refl _) (hascending.imp le_of_lt), commandChoice]
      simp

/-- The entry of a directory with proper names is a directory or not, whether it is looked up from
that directory or from the root. -/
theorem isDirectory_of_format {t : Tree} (ha : t.Addressable) {place : Segments}
    (hplace : ∀ segment ∈ place, Path.IsProper segment) {name : String}
    (hname : t.find? (place ++ [name]) ≠ none) :
    t.isDirectory name (Path.format place) = t.item?.isDirectory (place ++ [name]) := by
  rw [Tree.isDirectory_eq, Path.resolve_of_isProper (ha.isProper hname), Path.base_format hplace]

/-- What a path is completed with, from any working directory, is made of the names of entries that
fit in the directory that is listed. -/
theorem completePath_eq_outcome (s : Session) (before token : List Char) :
    ∃ bare : List String, bare.Pairwise (· < ·) ∧
      (∀ name, (s.listedChoice token).Fits name ↔ name ∈ bare) ∧
      s.completePath ⟨before, token, false⟩ =
        (s.listedChoice token).outcome (String.ofList (before ++ token)) bare := by
  delta completePath
  dsimp only
  rw [resolve_directory, PathEnd.of_start, PathEnd.of_base]
  cases hlist :
      s.volume.tree.childNames (Path.format (s.directoryOf (PathEnd.basePart token))) "/" with
  | error e =>
    have hno := Tree.childNames_eq_error_iff.mp ⟨e, hlist⟩
    refine ⟨[], List.Pairwise.nil, fun name => iff_of_false ?_ List.not_mem_nil, rfl⟩
    rintro ⟨hname, -⟩
    obtain ⟨n, hn⟩ := Option.ne_none_iff_exists'.mp hname
    exact hno (Tree.hasDirectory_iff.mpr (Tree.directoryAt_of_find? hn))
  | ok entries =>
    have hlists := Tree.lists_of_childNames hlist
    have hfits : ∀ name, (s.listedChoice token).Fits name ↔
        name ∈ matching (PathEnd.namePart token) entries := by
      intro name
      rw [mem_matching, hlists.mem_iff]
      rfl
    refine ⟨_, pairwise_matching _ hlists.ascending, hfits, ?_⟩
    dsimp only
    generalize matching (PathEnd.namePart token) entries = bare at hfits
    cases bare with
    | nil => rfl
    | cons first others =>
      cases others with
      | nil =>
        have hstart : PathEnd.namePart token <+: first.toList :=
          ((hfits first).mpr List.mem_cons_self).2
        have happend := append_name before (PathEnd.basePart token) hstart
        rw [PathEnd.basePart_append_namePart] at happend
        dsimp only
        rw [happend]
        rfl
      | cons second others =>
        rw [Choice.outcome_of_several (by simp)]
        rfl

/-- From a straight working directory, what a path is completed with is made of the names of entries
that fit. -/
theorem completePath_eq (hcwd : Path.IsStraight s.cwd) (ha : s.volume.tree.Addressable)
    (before token : List Char) :
    ∃ bare : List String, bare.Pairwise (· < ·) ∧
      (∀ name, (s.pathChoice token).Fits name ↔ name ∈ bare) ∧
      s.completePath ⟨before, token, false⟩ =
        (s.pathChoice token).outcome (String.ofList (before ++ token)) bare := by
  have hplace : ∀ segment ∈ s.directoryOf (PathEnd.basePart token), Path.IsProper segment :=
    hcwd.proper_resolve _
  have hlisted := listedOf_eq hcwd (PathEnd.basePart token)
  obtain ⟨bare, hbare, hfits, hcomplete⟩ := completePath_eq_outcome s before token
  have hfits' : ∀ name, (s.pathChoice token).Fits name ↔ name ∈ bare := by
    intro name
    rw [← hfits, Choice.Fits, Choice.Fits, isName_pathChoice, listedChoice, hlisted]
    rfl
  refine ⟨bare, hbare, hfits', hcomplete.trans (Choice.outcome_congr rfl rfl fun name hname => ?_)⟩
  have hfound := isName_pathChoice.mp ((hfits' name).mpr hname).1
  rw [goesOn_pathChoice, ← isDirectory_of_format ha hplace hfound, listedChoice]

/-- What can be completed is told by what is there. From a straight working directory in a tree of
proper names, nothing is offered just if nothing fits, a whole line just if one name fits, and
several names, in order, just if there are so many. -/
theorem completes_with_what_fits (hcwd : Path.IsStraight s.cwd) (ha : s.volume.tree.Addressable)
    (line : String) :
    let c := s.choice line.toList
    (∀ name, name ∈ s.available ↔ s.HasUnit name) ∧
      c.base ++ c.start = LineEnd.token line.toList ∧
      (s.complete line = none ↔ ∀ name, ¬ c.Fits name) ∧
      (∀ v, s.complete line = some (.complete v) ↔
        ∃ name rest, (∀ other, c.Fits other ↔ other = name) ∧ name.toList = c.start ++ rest ∧
          v = line ++ String.ofList rest ++ if c.goesOn name then "/" else " ") ∧
      ∀ names base, s.complete line = some (.suggestions names base) ↔
        ∃ bare : List String, 2 ≤ bare.length ∧ bare.Pairwise (· < ·) ∧
          (∀ name, c.Fits name ↔ name ∈ bare) ∧
          names = bare.map (fun name => if c.goesOn name then name ++ "/" else name) ∧
          base = String.ofList c.base := by
  intro c
  have hline : String.ofList (LineEnd.context line.toList ++ LineEnd.token line.toList) = line := by
    rw [LineEnd.context_append_token, String.ofList_toList]
  have hoffer : ∃ bare : List String, bare.Pairwise (· < ·) ∧ (∀ name, c.Fits name ↔ name ∈ bare) ∧
      s.complete line = c.outcome line bare := by
    rw [complete, LineEnd.of_eq]
    dsimp only
    by_cases hcommand : LineEnd.AtCommand line.toList
    · have hc : c = s.commandChoice (LineEnd.token line.toList) := if_pos hcommand
      have hoffer := completeCommand_eq ha (LineEnd.context line.toList) (LineEnd.token line.toList)
      rw [decide_eq_true hcommand, if_pos rfl, hc]
      rwa [hline] at hoffer
    · have hc : c = s.pathChoice (LineEnd.token line.toList) := if_neg hcommand
      have hoffer := completePath_eq hcwd ha (LineEnd.context line.toList)
        (LineEnd.token line.toList)
      rw [decide_eq_false hcommand, if_neg Bool.false_ne_true, hc]
      rwa [hline] at hoffer
  have hword : c.base ++ c.start = LineEnd.token line.toList := by
    change (s.choice line.toList).base ++ (s.choice line.toList).start = _
    rw [choice]
    split
    · rfl
    · exact PathEnd.basePart_append_namePart _
  obtain ⟨bare, hbare, hall, he⟩ := hoffer
  rw [he]
  exact ⟨(available_spec ha).2, hword, Choice.outcome_iff hall hbare⟩

/-- The only entry that begins with what is there of a name is put in whole. -/
theorem complete_of_single {before word base directory start : List Char} {place name : String}
    {entries : List String} (hend : LineEnd.of line.toList = ⟨before, word, false⟩)
    (hof : PathEnd.of word = ⟨base, directory, start⟩)
    (hplace : Path.format (Path.resolve (s.expandHome (String.ofList directory)) s.cwd) = place)
    (hlist : s.volume.tree.childNames place "/" = .ok entries)
    (hmatch : matching start entries = [name]) :
    s.complete line = some (.complete (String.ofList before ++ String.ofList base ++ name ++
      if s.volume.tree.isDirectory name place then "/" else " ")) := by
  rw [complete, hend]
  dsimp only
  rw [if_neg Bool.false_ne_true]
  delta completePath
  dsimp only
  rw [hof, hplace, hlist]
  dsimp only
  rw [hmatch]

/-- A session two directories below the root, where there is one entry. -/
def twoBelow : Session :=
  start Volume.orderly ⟨OrderedMap.ofList [("PWD", "/a/b")]⟩ ⟨∅⟩ ∅

/-- The working directory of this session is canonical. -/
theorem isStraight_twoBelow : Path.IsStraight twoBelow.cwd := by decide +kernel

/-- There is one entry in the root of this session. -/
theorem childNames_twoBelow : twoBelow.volume.tree.childNames "/" "/" = .ok ["a"] := by
  have hlist : Volume.orderly.tree.childNames "/" "/" = .ok ["a"] :=
    congrArg Except.ok (Text.sorted_singleton "a")
  exact hlist

/-- The one entry two directories up is put in. -/
theorem complete_twoBelow : twoBelow.complete "ls ../../" = some (.complete "ls ../../a/") := by
  have hend : LineEnd.of "ls ../../".toList = ⟨"ls ".toList, "../../".toList, false⟩ := by
    decide +kernel
  have hof : PathEnd.of "../../".toList = ⟨"../../".toList, "../..".toList, []⟩ := by
    decide +kernel
  have hplace : Path.format (Path.resolve (twoBelow.expandHome (String.ofList "../..".toList))
      twoBelow.cwd) = "/" := by
    decide +kernel
  have hdirectory : twoBelow.volume.tree.isDirectory "a" "/" = true := by decide +kernel
  rw [complete_of_single hend hof hplace childNames_twoBelow rfl, if_pos hdirectory]
  decide +kernel

/-- The only entry two directories up is put in whole, with a slash; no other name fits. -/
theorem completes_with_only_entry :
    twoBelow.complete "ls ../../" = some (.complete "ls ../../a/") ∧
      ∃ name rest, (∀ other, (twoBelow.choice "ls ../../".toList).Fits other ↔ other = name) ∧
        name.toList = (twoBelow.choice "ls ../../".toList).start ++ rest := by
  obtain ⟨-, -, -, hwhole, -⟩ :=
    completes_with_what_fits isStraight_twoBelow Volume.addressable_orderly "ls ../../"
  obtain ⟨name, rest, honly, hrest, -⟩ := (hwhole _).mp complete_twoBelow
  exact ⟨complete_twoBelow, name, rest, honly, hrest⟩

end Session

end TreeShell
