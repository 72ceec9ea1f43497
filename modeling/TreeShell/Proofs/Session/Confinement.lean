import TreeShell.Proofs.Completion
import TreeShell.Proofs.Session.Home
import TreeShell.Proofs.Volume.Installing

/-!
# Where the working directory may be

Whether a place is within the home directory is told by the texts of two paths. For a place of
proper segments this is a matter of segments, however the home directory is spelled: without the
slashes at its end, it has to be nothing, or the path of a place there or above. So a change of the
working directory has one of four outcomes, told by what is at the place that the path leads to and
by whether the home directory covers it.
-/

namespace TreeShell

open TreeShell.Path

namespace Text

/-- A text is split at a character as lists are. -/
theorem splitOn_eq (sep : Char) (cs : List Char) : splitOn sep cs = List.splitOn sep cs := by
  induction cs with
  | nil => rw [List.splitOn_nil]; rfl
  | cons c cs ih =>
    rw [List.splitOn_eq_splitOnP, List.splitOnP_cons_eq_if_modifyHead, ← List.splitOn_eq_splitOnP,
      ← ih]
    by_cases hc : c = sep
    · rw [hc, splitOn_cons_self, if_pos (beq_self_eq_true sep)]
    · obtain ⟨w, ws, hw, hcons⟩ := splitOn_cons_of_ne hc cs
      rw [hcons, if_neg (by simpa using hc), hw]
      rfl

/-- What is left of a text without a character at its end does not end with that character. -/
theorem getLast?_trimEndOf_ne (c : Char) (cs : List Char) :
    (trimEndOf c cs).getLast? ≠ some c := by
  induction cs with
  | nil =>
    intro h
    cases h
  | cons d cs ih =>
    rw [trimEndOf]
    split
    · split
      · intro h
        cases h
      · next hd => exact fun h => hd (Option.some.inj h)
    · next hr =>
      rw [List.getLast?_cons_of_ne_nil hr]
      exact ih

/-- No path that lost the slashes at its end is a slash. -/
theorem withoutEndSlashes_ne_slash (s : String) : withoutEndSlashes s ≠ "/" := by
  intro he
  have hlast := getLast?_trimEndOf_ne '/' s.toList
  have hlist : trimEndOf '/' s.toList = ['/'] := by
    rw [← String.toList_ofList (l := trimEndOf '/' s.toList)]
    exact congrArg String.toList he
  rw [hlist] at hlast
  exact hlast rfl

/-- A text has a start just if it goes on from it. -/
theorem hasStart_iff_append {s start : String} :
    hasStart s start = true ↔ ∃ rest, s = start ++ rest := by
  rw [hasStart_iff]
  constructor
  · rintro ⟨rest, hrest⟩
    refine ⟨String.ofList rest, ?_⟩
    rw [← String.toList_inj, String.toList_append, String.toList_ofList, hrest]
  · rintro ⟨rest, rfl⟩
    exact ⟨rest.toList, String.toList_append⟩

end Text

namespace Path

variable {p q : Segments} {path : String}

/-- Each path has a part. -/
theorem parts_ne_nil (path : String) : parts path ≠ [] :=
  mt List.map_eq_nil_iff.mp (Text.splitWhere_ne_nil _ _)

/-- A path is its parts with slashes between them. -/
theorem join_parts (path : String) : Text.join "/" (parts path) = path := by
  have hid : String.toList ∘ String.ofList = id := funext fun cs => String.toList_ofList
  rw [Text.join, ← String.toList_inj, String.toList_intercalate, parts, List.map_map, hid,
    List.map_id, Text.splitOn_eq]
  exact List.intercalate_splitOn '/'

/-- What leads down from a place stands behind a slash in the path. -/
theorem format_append (hp : p ≠ []) (hq : q ≠ []) :
    format (p ++ q) = format p ++ ("/" ++ Text.join "/" q) := by
  rw [format, format, Text.join, Text.join, Text.join, String.intercalate_append_of_ne_nil hp hq]
  simp only [String.append_assoc]

/-- What stands before a slash in the path of a place is nothing, or the path of a place above. -/
theorem exists_prefix_of_format {before rest : String} (hq : ∀ x ∈ q, '/' ∉ x.toList)
    (hne : before ≠ "") (h : format q = before ++ ("/" ++ rest)) :
    ∃ p, before = format p ∧ p <+: q := by
  have hparts := congrArg parts h
  rw [parts_format hq, parts_append] at hparts
  cases hbefore : parts before with
  | nil => exact absurd hbefore (parts_ne_nil before)
  | cons first p =>
    rw [hbefore, List.cons_append, List.cons.injEq] at hparts
    obtain ⟨rfl, hrest⟩ := hparts
    have hjoin := join_parts before
    rw [hbefore] at hjoin
    cases p with
    | nil => exact absurd hjoin.symm hne
    | cons second p =>
      refine ⟨second :: p, ?_, ?_⟩
      · rw [← hjoin, Text.join, String.intercalate_cons_cons, String.empty_append, format]
        rfl
      · split at hrest
        · -- the root is one empty part: too few for what is before the slash and behind it
          have hlength := congrArg List.length hrest
          have hpos := List.length_pos_of_ne_nil (parts_ne_nil rest)
          rw [List.length_singleton, List.length_append, List.length_cons] at hlength
          omega
        · exact ⟨parts rest, hrest.symm⟩

end Path

namespace Session

variable {s : Session} {q pwd target : Segments} {path : String}

/-- The home directory covers a place: without the slashes at its end, it is nothing, or the path of
a place of proper segments that the place begins with. -/
def HomeCovers (s : Session) (place : Segments) : Prop :=
  Text.withoutEndSlashes s.home = "" ∨
    ∃ p, (∀ x ∈ p, IsProper x) ∧ Text.withoutEndSlashes s.home = format p ∧ p <+: place

/-- Whatever text the home directory is, the test of texts for a place of proper segments is one of
segments. -/
theorem insideHome_iff (hq : ∀ x ∈ q, IsProper x) :
    s.insideHome (format q) = true ↔ s.HomeCovers q := by
  rw [insideHome, HomeCovers, Bool.or_eq_true, beq_iff_eq]
  by_cases hempty : Text.withoutEndSlashes s.home = ""
  · -- every path from the root begins with the slash that is asked for
    rw [hempty]
    exact iff_of_true (Or.inr (Text.hasStart_iff_append.mpr ⟨_, rfl⟩)) (Or.inl rfl)
  · rw [if_neg hempty, or_iff_right hempty]
    constructor
    · rintro (hsame | hstart)
      · exact ⟨q, hq, hsame.symm, List.prefix_refl q⟩
      · obtain ⟨rest, hrest⟩ := Text.hasStart_iff_append.mp hstart
        rw [String.append_assoc] at hrest
        obtain ⟨p, hp, hle⟩ :=
          exists_prefix_of_format (fun x hx => (hq x hx).no_slash) hempty hrest
        exact ⟨p, fun x hx => hq x (hle.subset hx), hp, hle⟩
    · rintro ⟨p, -, hp, rest, rfl⟩
      rw [hp]
      cases rest with
      | nil => exact Or.inl (by rw [List.append_nil])
      | cons x rest =>
        have hroot : p ≠ [] := by
          rintro rfl
          exact Text.withoutEndSlashes_ne_slash s.home hp
        refine Or.inr (Text.hasStart_iff_append.mpr ⟨Text.join "/" (x :: rest), ?_⟩)
        rw [format_append hroot (List.cons_ne_nil x rest), String.append_assoc]

/-- A place that the home directory covers begins with the place that it leads to as a path. -/
theorem HomeCovers.prefix_resolve (h : s.HomeCovers q) : resolve s.home "/" <+: q := by
  rw [← resolve_withoutEndSlashes]
  rcases h with hempty | ⟨p, hp, hpath, hle⟩
  · have hroot : resolve "" "/" = [] := by decide
    rw [hempty, hroot]
    exact List.nil_prefix
  · rw [hpath, resolve_format hp]
    exact hle

/-- What a change of the working directory comes to, if the path leads to a place. -/
structure ChangesExactly (s : Session) (path : String) (target : Segments) : Prop where
  /-- It succeeds just if there is a directory at the place, and the home directory covers it. -/
  changes_iff : (∃ result, (s.changeDirectory path).1 = .ok result) ↔
    s.volume.tree.item?.HasDirectory target ∧ s.HomeCovers target
  /-- The working directory is then the path of the place, and nothing else is changed. -/
  changed : s.volume.tree.item?.HasDirectory target → s.HomeCovers target →
    s.changeDirectory path =
      (.ok (format target), { s with env := ⟨s.env.vars.set "PWD" (format target)⟩ })
  /-- The path of the place is canonical. -/
  proper : ∀ x ∈ target, IsProper x
  /-- A covered place is where the home directory leads as a path, or below. -/
  within : s.HomeCovers target → resolve s.home "/" <+: target
  /-- Where nothing is, that is what is said, and the session is left as it was. -/
  missing : s.volume.tree.item? target = none →
    s.changeDirectory path = (.error (.path (.notFound path)), s)
  /-- Likewise where a file is, covered or not. -/
  file : s.volume.tree.item?.HasFile target →
    s.changeDirectory path = (.error (.path (.notDirectory path)), s)
  /-- Likewise for a directory that is not covered. -/
  outside : s.volume.tree.item?.HasDirectory target → ¬ s.HomeCovers target →
    s.changeDirectory path = (.error (.outside path s.home), s)

/-- The three tests before a change, in their order, as tests of the place. -/
theorem directoryAt_eq (htarget : resolve (s.expandHome path) s.cwd = target)
    (hproper : ∀ x ∈ target, IsProper x) :
    s.directoryAt path =
      if s.volume.tree.item? target = none then .error (.path (.notFound path))
      else if s.volume.tree.item?.isDirectory target = false then
        .error (.path (.notDirectory path))
      else if s.insideHome (format target) = false then .error (.outside path s.home)
      else .ok (format target) := by
  have hcontains : (!s.volume.tree.contains (format target) "/") = true ↔
      s.volume.tree.item? target = none := by
    rw [Bool.not_eq_true', ← Bool.not_eq_true, Volume.tree_contains_iff, resolve_format hproper,
      not_not]
  have hdirectory : s.volume.tree.isDirectory (format target) "/" =
      s.volume.tree.item?.isDirectory target := by
    rw [Tree.isDirectory_eq, resolve_format hproper]
  simp only [directoryAt, htarget, hcontains, hdirectory, Bool.not_eq_true']

/-- A directory that is not there is not found. -/
theorem directoryAt_of_none (htarget : resolve (s.expandHome path) s.cwd = target)
    (hproper : ∀ x ∈ target, IsProper x) (hnone : s.volume.tree.item? target = none) :
    s.directoryAt path = .error (.path (.notFound path)) := by
  rw [directoryAt_eq htarget hproper, if_pos hnone]

/-- A file is no directory to change to. -/
theorem directoryAt_of_file (htarget : resolve (s.expandHome path) s.cwd = target)
    (hproper : ∀ x ∈ target, IsProper x) (hfile : s.volume.tree.item?.HasFile target) :
    s.directoryAt path = .error (.path (.notDirectory path)) := by
  obtain ⟨item, hitem, hkind⟩ := hfile
  have hno : s.volume.tree.item?.isDirectory target = false := by
    rw [PathMap.isDirectory, hitem]
    exact hkind
  rw [directoryAt_eq htarget hproper, if_neg (by simp [hitem]), if_pos hno]

/-- A directory leaves the last test only. -/
theorem directoryAt_of_directory (htarget : resolve (s.expandHome path) s.cwd = target)
    (hproper : ∀ x ∈ target, IsProper x) (hdirectory : s.volume.tree.item?.HasDirectory target) :
    s.directoryAt path =
      if s.insideHome (format target) = false then .error (.outside path s.home)
      else .ok (format target) := by
  obtain ⟨item, hitem, hkind⟩ := hdirectory
  have hyes : s.volume.tree.item?.isDirectory target = true := by
    rw [PathMap.isDirectory, hitem]
    exact hkind
  rw [directoryAt_eq htarget hproper, if_neg (by simp [hitem]), hyes, if_neg Bool.noConfusion]

/-- A change that is refused leaves the session as it is. -/
theorem changeDirectory_of_error {e : ChangeError} (h : s.directoryAt path = .error e) :
    s.changeDirectory path = (.error e, s) := by
  unfold changeDirectory
  rw [h]

/-- A change of the directory sets the variable and nothing else. -/
theorem changeDirectory_of_ok {result : String} (h : s.directoryAt path = .ok result) :
    s.changeDirectory path = (.ok result, { s with env := ⟨s.env.vars.set "PWD" result⟩ }) := by
  unfold changeDirectory
  rw [h]

/-- From the path of a place of proper segments, whatever the home directory and the path are, the
working directory is changed just if there is a directory where the path leads and the home
directory covers that place; else the reason that comes first is told, and the session is left as it
was. -/
theorem changes_only_within_home (hpwd : ∀ x ∈ pwd, IsProper x) (hcwd : s.cwd = format pwd)
    (path : String) : s.ChangesExactly path (resolve (s.expandHome path) s.cwd) := by
  have hproper : ∀ x ∈ resolve (s.expandHome path) s.cwd, IsProper x := by
    refine proper_resolve (Or.inr ?_)
    rw [hcwd, base_format hpwd]
    exact hpwd
  generalize htarget : resolve (s.expandHome path) s.cwd = target at hproper
  have hcovers : s.insideHome (format target) = true ↔ s.HomeCovers target := insideHome_iff hproper
  have hmissing : s.volume.tree.item? target = none →
      s.changeDirectory path = (.error (.path (.notFound path)), s) :=
    fun hnone => changeDirectory_of_error (directoryAt_of_none htarget hproper hnone)
  have hfile : s.volume.tree.item?.HasFile target →
      s.changeDirectory path = (.error (.path (.notDirectory path)), s) :=
    fun hfile => changeDirectory_of_error (directoryAt_of_file htarget hproper hfile)
  have hchanged : s.volume.tree.item?.HasDirectory target → s.HomeCovers target →
      s.changeDirectory path =
        (.ok (format target), { s with env := ⟨s.env.vars.set "PWD" (format target)⟩ }) := by
    intro hdirectory hcovered
    have hok := directoryAt_of_directory htarget hproper hdirectory
    rw [hcovers.mpr hcovered, if_neg Bool.noConfusion] at hok
    exact changeDirectory_of_ok hok
  have houtside : s.volume.tree.item?.HasDirectory target → ¬ s.HomeCovers target →
      s.changeDirectory path = (.error (.outside path s.home), s) := by
    intro hdirectory hcovered
    have herror := directoryAt_of_directory htarget hproper hdirectory
    rw [if_pos (Bool.eq_false_iff.mpr (mt hcovers.mp hcovered))] at herror
    exact changeDirectory_of_error herror
  refine ⟨⟨?_, fun h => ⟨_, congrArg Prod.fst (hchanged h.1 h.2)⟩⟩, hchanged, hproper,
    HomeCovers.prefix_resolve, hmissing, hfile, houtside⟩
  -- all other cases are refused
  rintro ⟨result, hresult⟩
  by_contra hno
  cases hitem : s.volume.tree.item? target with
  | none =>
    rw [hmissing hitem] at hresult
    cases hresult
  | some item =>
    by_cases hkind : item.isDirectory = true
    · have hdirectory : s.volume.tree.item?.HasDirectory target := ⟨item, hitem, hkind⟩
      rw [houtside hdirectory fun hcovered => hno ⟨hdirectory, hcovered⟩] at hresult
      cases hresult
    · rw [hfile ⟨item, hitem, Bool.eq_false_iff.mpr hkind⟩] at hresult
      cases hresult

/-- A session below a home directory with a slash at its end, beside which there is a directory with
a longer name. -/
def besideHome : Session :=
  start ((Volume.unsaved (Tree.empty 0) 0).serve
      [⟨1, "/", .edit (.makeDirectories "home/guest/docs")⟩,
        ⟨2, "/", .edit (.makeDirectories "home/guest2")⟩]).2
    ⟨OrderedMap.ofList [("HOME", "/home/guest/"), ("PWD", "/home/guest/docs")]⟩ ⟨∅⟩ ∅

/-- The directory beside the home directory is refused, and the home directory itself is not. -/
theorem stays_beside_home :
    besideHome.cwd = format ["home", "guest", "docs"] ∧
      besideHome.changeDirectory "../../guest2" =
        (.error (.outside "../../guest2" "/home/guest/"), besideHome) ∧
      (besideHome.changeDirectory "~").1 = .ok "/home/guest" := by
  have hpwd : ∀ x ∈ ["home", "guest", "docs"], IsProper x :=
    proper_resolve_root "/home/guest/docs"
  have hcwd : besideHome.cwd = format ["home", "guest", "docs"] := by decide +kernel
  refine ⟨hcwd, (changes_only_within_home hpwd hcwd "../../guest2").outside ⟨_, rfl, rfl⟩ ?_, ?_⟩
  · intro hcovers
    have hinside : besideHome.insideHome (format (resolve (besideHome.expandHome "../../guest2")
        besideHome.cwd)) = false := by
      decide +kernel
    have hproper := (changes_only_within_home hpwd hcwd "../../guest2").proper
    exact Bool.noConfusion (((insideHome_iff hproper).mpr hcovers).symm.trans hinside)
  · have hinside : besideHome.insideHome (format (resolve (besideHome.expandHome "~")
        besideHome.cwd)) = true := by
      decide +kernel
    have hproper := (changes_only_within_home hpwd hcwd "~").proper
    have hcovers := (insideHome_iff hproper).mp hinside
    have hchanged := (changes_only_within_home hpwd hcwd "~").changed ⟨_, rfl, rfl⟩ hcovers
    have hpath : format (resolve (besideHome.expandHome "~") besideHome.cwd) = "/home/guest" := by
      decide +kernel
    exact (congrArg Prod.fst hchanged).trans (congrArg Except.ok hpath)

end Session

end TreeShell
