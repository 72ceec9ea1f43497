import TreeShell.Proofs.Line.Quoting
import TreeShell.Proofs.OrderedMap
import TreeShell.Proofs.Volume.Units

/-!
# What an installation leaves behind

An installation writes the unit files that are missing, in the order of their names, and says which
it wrote. Each of these can be read back as the registered command that it was written for, whatever
the description of that is: the name stands alone in the first line. All that was there stays as it
was, and there is nothing left to do for the next installation.
-/

namespace TreeShell

namespace Text

/-- A text is cut at the first separator in it. -/
theorem cutFirst_append {sep : Char} {line : List Char} (h : sep ∉ line) (rest : List Char) :
    cutFirst sep (line ++ sep :: rest) = (line, some rest) := by
  induction line with
  | nil => rw [List.nil_append, cutFirst, if_pos rfl]
  | cons c line ih =>
    rw [List.mem_cons, not_or] at h
    rw [List.cons_append, cutFirst, if_neg (Ne.symm h.1), ih h.2]

end Text

namespace Registry

open Command

/-- A registry that was put together from commands. -/
inductive Built : Registry → Prop where
  | empty : Built .empty
  | add {r : Registry} (h : Built r) (c : Command) : Built (r.add c)
  | update {r other : Registry} (h : Built r) (h' : Built other) : Built (r.update other)

/-- A name under which a unit file can be written and its first line be read. -/
structure IsInstallable (name : String) : Prop extends IsName name where
  no_newline : '\n' ∉ name.toList
  trimmed : Text.trimmed name = name

variable {r : Registry} {t : Tree} {c : Command} {name bin : String}

/-! ## The commands of a registry -/

/-- A command is found under its own name. -/
theorem Built.name_eq (h : r.Built) (hc : r.get? name = some c) : c.name = name := by
  induction h generalizing name c with
  | empty => cases hc
  | add h c' ih =>
    rw [get?, Registry.add, OrderedMap.get?_set] at hc
    split at hc
    · next hk => rw [hk, Option.some.inj hc]
    · exact ih hc
  | update h h' ih ih' =>
    rcases OrderedMap.get?_setAll_eq_some hc with hc | hc
    · exact ih hc
    · exact ih' (OrderedMap.mem_entries_iff.mp hc)

/-- A registry that is made of a list is built. -/
theorem built_ofList (l : List Command) : (ofList l).Built := by
  have hfold : ∀ r : Registry, r.Built → (l.foldl add r).Built := by
    induction l with
    | nil => exact fun r h => h
    | cons c l ih => exact fun r h => ih (r.add c) (h.add c)
  exact hfold empty .empty

/-- The names of a registry are those it finds a command under. -/
theorem mem_names_iff : name ∈ r.names ↔ ∃ c, r.get? name = some c := by
  rw [names, Text.mem_sorted, OrderedMap.mem_keys_iff]
  rfl

/-- The names of a registry are in order. -/
theorem ascending_names (r : Registry) : r.names.Pairwise (· < ·) :=
  Text.pairwise_lt_sorted r.commands.nodup

/-- A command of a built registry is found under its own name. -/
theorem Built.mem_toList_iff (h : r.Built) : c ∈ r.toList ↔ r.get? c.name = some c := by
  rw [toList, List.mem_filterMap]
  constructor
  · rintro ⟨name, -, hc⟩
    rw [h.name_eq hc]
    exact hc
  · exact fun hc => ⟨c.name, mem_names_iff.mpr ⟨c, hc⟩, hc⟩

/-- The commands are listed by their names. -/
theorem Built.map_name_toList (h : r.Built) : r.toList.map Command.name = r.names := by
  rw [toList, List.map_filterMap]
  refine (List.filterMap_congr fun name hname => ?_).trans List.filterMap_some
  obtain ⟨c, hc⟩ := mem_names_iff.mp hname
  rw [hc, Option.map_some, h.name_eq hc]

/-- No command has a slash in its name if all names of the registry are names. -/
theorem Built.no_slash (h : r.Built) (hnames : ∀ name ∈ r.names, IsName name) :
    ∀ c ∈ r.toList, '/' ∉ c.name.toList := fun c hc =>
  (hnames c.name (mem_names_iff.mpr ⟨c, h.mem_toList_iff.mp hc⟩)).no_slash

/-! ## From a command to its unit file and back -/

/-- The name of a command stands alone in the first line of its unit file, whatever the description
is. -/
theorem firstLine_unitSource (h : '\n' ∉ c.name.toList) :
    firstLine c.unitSource = unitHeader.toList ++ c.name.toList := by
  have hline : '\n' ∉ unitHeader.toList ++ c.name.toList := by
    rw [List.mem_append, not_or]
    exact ⟨by decide, h⟩
  have hsource : c.unitSource.toList =
      (unitHeader.toList ++ c.name.toList) ++ '\n' :: ("# " ++ c.description ++ "\n").toList := by
    simp [unitSource]
  rw [firstLine, hsource]
  exact congrArg Prod.fst (Text.cutFirst_append hline _)

/-- The unit file of a registered command gives that command. -/
theorem load_of_unitSource (hinstallable : IsInstallable name) (hname : c.name = name)
    (hc : r.get? name = some c)
    (hunit : t.content (unitPath name bin) "/" = .ok (.string c.unitSource)) :
    r.load t name bin = .ok c := by
  have hline : firstLine c.unitSource = unitHeader.toList ++ name.toList := by
    rw [← hname]
    exact firstLine_unitSource (hname ▸ hinstallable.no_newline)
  have hentry : String.ofList (Text.trim name.toList) = name := hinstallable.trimmed
  have hreads := reads_load (r := r) hinstallable.toIsName hunit
  generalize r.load t name bin = outcome at hreads
  cases hreads with
  | @command rest c' hrest hc' =>
    obtain rfl := List.append_cancel_left (hline.symm.trans hrest)
    rw [hentry, hc] at hc'
    rw [Option.some.inj hc']
  | noHeader hno => exact absurd hline (hno _)
  | @unknownEntry rest hrest hc' =>
    obtain rfl := List.append_cancel_left (hline.symm.trans hrest)
    rw [hentry, hc] at hc'
    cases hc'

end Registry

namespace PathMap

open Command

variable {now : Int} {bin p : Segments} {commands : List Command}

/-- Equipment stands on the way to its directory and at the unit files. -/
theorem equipment_ne_none_iff : equipment now bin commands p ≠ none ↔
    p <+: bin ∨ ∃ c ∈ commands, p = bin ++ [c.name ++ unitSuffix] := by
  rw [equipment, supplied, ne_eq, Option.or_eq_none_iff, not_and_or, ← ne_eq, way_ne_none_iff]
  refine or_congr_right ?_
  simp [units]

/-- No entry of a directory is a part of the way to it. -/
theorem not_prefix_of_concat {name : String} : ¬ bin ++ [name] <+: bin := by
  intro h
  have hlength := h.length_le
  rw [List.length_append, List.length_singleton] at hlength
  omega

/-- No unit file is on the way to its directory. -/
theorem way_concat (now : Int) (bin : Segments) (name : String) :
    way now bin (bin ++ [name]) = none := by
  by_contra hway
  exact not_prefix_of_concat (way_ne_none_iff.mp hway)

/-- Equipment has the unit file of each registered command, and none for another command with the
same name. -/
theorem equipment_unit {r : Registry} {name : String} {c : Command} (h : r.Built)
    (hc : r.get? name = some c) : equipment now bin r.toList (bin ++ [name ++ unitSuffix]) =
      some ⟨.ofFile now, some (.string c.unitSource)⟩ := by
  have hname := h.name_eq hc
  have hlisted : c ∈ r.toList := by
    rw [h.mem_toList_iff, hname]
    exact hc
  have hthere : equipment now bin r.toList (bin ++ [name ++ unitSuffix]) ≠ none :=
    equipment_ne_none_iff.mpr (.inr ⟨c, hlisted, by rw [hname]⟩)
  obtain ⟨item, hitem⟩ := Option.ne_none_iff_exists'.mp hthere
  rw [hitem]
  rw [equipment, supplied_of_none (way_concat now bin _)] at hitem
  obtain ⟨c', hc', hp, rfl⟩ := units_eq_some hitem
  have hname' : name = c'.name :=
    (String.append_left_inj unitSuffix).mp (List.singleton_inj.mp (List.append_cancel_left hp))
  have hother := h.mem_toList_iff.mp hc'
  rw [← hname', hc] at hother
  rw [Option.some.inj hother]

end PathMap

namespace Volume

open Command

variable {v v' : Volume} {r : Registry} {bin : String} {names : List String}

/-! ## Which unit files are written -/

/-- Those unit files are written that were missing at the start. -/
theorem installAll_names {commands : List Command} (h : v.tree.WellFormed)
    (hbin : v.tree.item?.HasDirectory (Path.resolve bin "/"))
    (hslash : ∀ c ∈ commands, '/' ∉ c.name.toList) (hnodup : (commands.map Command.name).Nodup) :
    (installAll bin commands v).1 = .ok ((commands.filter fun c =>
      !v.tree.contains (unitPath c.name bin) "/").map Command.name) := by
  induction commands generalizing v with
  | nil => rfl
  | cons c rest ih =>
    have hhere : '/' ∉ c.name.toList := hslash c List.mem_cons_self
    have hrest : ∀ c' ∈ rest, '/' ∉ c'.name.toList := fun c' hc =>
      hslash c' (List.mem_cons_of_mem c hc)
    rw [List.map_cons, List.nodup_cons] at hnodup
    rcases installAll_cons h hbin hhere rest with
      ⟨hthere, hstep⟩ | ⟨hfree, w, hw, hbin', -, hput, hstep⟩
    · rw [← contains_unitPath_iff hhere] at hthere
      rw [hstep, List.filter_cons_of_neg (by simp [hthere])]
      exact ih h hbin hrest hnodup.2
    · have hmissing : ¬ v.tree.contains (unitPath c.name bin) "/" = true := by
        rw [contains_unitPath_iff hhere, not_not, hfree]
      -- A unit file that is written is at no other name's place.
      have hsame : ∀ c' ∈ rest, (!w.tree.contains (unitPath c'.name bin) "/") =
          !v.tree.contains (unitPath c'.name bin) "/" := by
        intro c' hc'
        have hne : c'.name ++ unitSuffix ≠ c.name ++ unitSuffix := by
          intro he
          have hname := (String.append_left_inj unitSuffix).mp he
          exact hnodup.1 (hname ▸ List.mem_map_of_mem hc')
        have hput' : w.tree.item? (Path.resolve bin "/" ++ [c'.name ++ unitSuffix]) =
            v.tree.item? (Path.resolve bin "/" ++ [c'.name ++ unitSuffix]) := by
          rw [hput, PathMap.put, if_neg]
          simpa using hne
        rw [Bool.not_inj_iff, Bool.eq_iff_iff, contains_unitPath_iff (hrest c' hc'),
          contains_unitPath_iff (hrest c' hc'), hput']
      have hnames := ih hw hbin' hrest hnodup.2
      rw [List.filter_congr hsame] at hnames
      rw [hstep, List.filter_cons_of_pos (by simp [hmissing]), List.map_cons]
      dsimp only
      rw [hnames]
      rfl

/-- The names of a registry that have no unit file are those for which one is written. -/
theorem install_names (h : v.tree.WellFormed) (hr : r.Built)
    (hnames : ∀ name ∈ r.names, Registry.IsName name) (hok : v.install r bin = (.ok names, v')) :
    names = r.names.filter fun name => !v.tree.contains (unitPath name bin) "/" := by
  have hslash := hr.no_slash hnames
  rw [install] at hok
  rcases perform_makeDirectories h bin with ⟨e, q, hv, -, -⟩ | ⟨v₁, hv, hfree, hmade⟩
  · rw [hv] at hok
    cases hok
  · rw [hv] at hok
    dsimp only at hok
    have hbin : v₁.tree.item?.HasDirectory (Path.resolve bin "/") := by
      rw [hmade.item]
      exact PathMap.hasDirectory_supplied_way (hfree _ (List.prefix_refl _))
    have hnodup : (r.toList.map Command.name).Nodup := by
      rw [hr.map_name_toList]
      exact (Registry.ascending_names r).imp ne_of_lt
    have hwritten := installAll_names hmade.wellFormed hbin hslash hnodup
    rw [hok, Except.ok.injEq] at hwritten
    have hsame : ∀ c ∈ r.toList, (!v₁.tree.contains (unitPath c.name bin) "/") =
        !v.tree.contains (unitPath c.name bin) "/" := by
      intro c hc
      rw [Bool.not_inj_iff, Bool.eq_iff_iff, contains_unitPath_iff (hslash c hc),
        contains_unitPath_iff (hslash c hc), hmade.item, PathMap.supplied, PathMap.way_concat,
        Option.or_none]
    simp only [hwritten, List.filter_congr hsame, ← hr.map_name_toList, List.filter_map,
      Function.comp_def]

/-! ## What is there afterwards -/

/-- What an installation says that it wrote, and what it leaves behind. -/
structure Installed (v : Volume) (r : Registry) (bin : String) (names : List String)
    (v' : Volume) : Prop where
  /-- All that was there is as it was. -/
  kept : ∀ p item, v.tree.item? p = some item → v'.tree.item? p = some item
  /-- What is new is the directory, on the way to it, or a unit file that was written. -/
  added : ∀ p, v.tree.item? p = none → v'.tree.item? p ≠ none →
    p <+: Path.resolve bin "/" ∨ ∃ name ∈ names, p = Path.resolve bin "/" ++ [name ++ unitSuffix]
  /-- No name is said twice, and they are in order. -/
  ascending : names.Pairwise (· < ·)
  /-- The names are those that are registered and had nothing at the path of their unit file. -/
  mem_iff : ∀ name, name ∈ names ↔
    name ∈ r.names ∧ v.tree.contains (unitPath name bin) "/" = false
  /-- Each of them gives the command that is registered under it. -/
  loads : ∀ name ∈ names, ∃ c, r.get? name = some c ∧ r.load v'.tree name bin = .ok c
  /-- The next installation writes nothing, at any time, and leaves the volume as it is, with the
  count of saves that its storage keeps. -/
  again : ∀ now, (v'.atClock now).install r bin = (.ok [], v'.atClock now)

/-- A file that is there after an installation was there before, or is a unit file. -/
theorem hasFile_of_equipped {now : Int} {p : Segments} {commands : List Command}
    (h : v'.tree.item? = v.tree.item?.supplied
      (PathMap.equipment now (Path.resolve bin "/") commands))
    (hp : p <+: Path.resolve bin "/") (hfile : v'.tree.item?.HasFile p) :
    v.tree.item?.HasFile p := by
  rw [h, PathMap.equipment, ← PathMap.supplied_supplied] at hfile
  obtain ⟨item, hitem, hkind⟩ := hfile
  have hthere : (v.tree.item?.supplied (PathMap.way now (Path.resolve bin "/"))) p ≠ none :=
    PathMap.supplied_ne_none (.inr (PathMap.way_ne_none_iff.mpr hp))
  obtain ⟨item', hitem'⟩ := Option.ne_none_iff_exists'.mp hthere
  rw [PathMap.supplied_of_some hitem', Option.some.injEq] at hitem
  subst hitem
  exact PathMap.HasFile.of_way ⟨item', hitem', hkind⟩

/-- An installation that is made says what it wrote, and leaves that behind. -/
theorem installed_of_install (h : v.tree.WellFormed) (hr : r.Built)
    (hnames : ∀ name ∈ r.names, Registry.IsInstallable name)
    (hok : v.install r bin = (.ok names, v')) : v.Installed r bin names v' := by
  have hvalid : ∀ name ∈ r.names, Registry.IsName name := fun name hname =>
    (hnames name hname).toIsName
  have hslash := hr.no_slash hvalid
  obtain rfl := install_names h hr hvalid hok
  obtain ⟨hfree, hsupplied⟩ : (∀ q, q <+: Path.resolve bin "/" → ¬ v.tree.item?.HasFile q) ∧
      v.Supplied (PathMap.equipment v.clock (Path.resolve bin "/") r.toList) v' := by
    rcases install_spec (r := r) h bin hslash with ⟨e, q, hrefused, -⟩ | ⟨names', w, hmade, hrest⟩
    · rw [hok] at hrefused
      cases hrefused
    · rw [hok] at hmade
      cases hmade
      exact ⟨hrest.1, hrest.2.1⟩
  have hmem : ∀ name, (name ∈ r.names.filter fun name => !v.tree.contains (unitPath name bin) "/") ↔
      name ∈ r.names ∧ v.tree.contains (unitPath name bin) "/" = false := by
    intro name
    rw [List.mem_filter, Bool.not_eq_true']
  refine {
    kept := fun p item hp => ?_
    added := fun p hp hp' => ?_
    ascending := (Registry.ascending_names r).filter _
    mem_iff := hmem
    loads := fun name hname => ?_
    again := fun now => ?_ }
  · rw [hsupplied.item]
    exact PathMap.supplied_of_some hp
  · rw [hsupplied.item, PathMap.supplied_of_none hp, PathMap.equipment_ne_none_iff] at hp'
    refine hp'.imp_right ?_
    rintro ⟨c, hc, rfl⟩
    refine ⟨c.name, (hmem c.name).mpr ⟨?_, ?_⟩, rfl⟩
    · exact Registry.mem_names_iff.mpr ⟨c, hr.mem_toList_iff.mp hc⟩
    · rw [← Bool.not_eq_true, tree_contains_iff, not_not, resolve_unitPath (hslash c hc)]
      exact hp
  · obtain ⟨hname, hmissing⟩ := (hmem name).mp hname
    obtain ⟨c, hc⟩ := Registry.mem_names_iff.mp hname
    refine ⟨c, hc, Registry.load_of_unitSource (hnames name hname) (hr.name_eq hc) hc ?_⟩
    have hplace := resolve_unitPath (hnames name hname).no_slash bin
    rw [← Bool.not_eq_true, tree_contains_iff, not_not, hplace] at hmissing
    rw [Tree.content_eq_ok_iff, hplace, hsupplied.item, PathMap.supplied_of_none hmissing,
      PathMap.equipment_unit hr hc]
    exact ⟨_, rfl⟩
  · have hfull : ∀ p, PathMap.equipment now (Path.resolve bin "/") r.toList p ≠ none →
        v'.tree.item? p ≠ none := by
      intro p hp
      rw [hsupplied.item]
      exact PathMap.supplied_ne_none
        (.inr (PathMap.equipment_ne_none_iff.mpr (PathMap.equipment_ne_none_iff.mp hp)))
    rcases install_spec (v := v'.atClock now) (r := r) hsupplied.wellFormed bin hslash with
      ⟨e, q, -, hq, hfile⟩ | ⟨names', w, hmade, -, hidle, hnone⟩
    · exact absurd (hasFile_of_equipped hsupplied.item hq hfile) (hfree q hq)
    · rw [hmade, hidle.idle hfull, hnone hfull]

/-- An installation is made just if no file is in the way of its directory. -/
theorem exists_install_iff (h : v.tree.WellFormed) (bin : String)
    (hslash : ∀ c ∈ r.toList, '/' ∉ c.name.toList) :
    (∃ names v', v.install r bin = (.ok names, v')) ↔
      ∀ q, q <+: Path.resolve bin "/" → ¬ v.tree.item?.HasFile q := by
  rcases install_spec (r := r) h bin hslash with
    ⟨e, q, hrefused, hq, hfile⟩ | ⟨names, w, hmade, hfree, -⟩
  · rw [hrefused]
    refine iff_of_false ?_ fun hfree => hfree q hq hfile
    rintro ⟨names, v', hok⟩
    cases hok
  · exact iff_of_true ⟨names, w, hmade⟩ hfree

/-- After any requests, the unit files of a registry of commands with installable names can be
installed just if no file is in the way of their directory. An installation that is made leaves all
that was there as it was. It says, in order, which registered names had nothing at the path of their
unit file, and has put there what gives the registered command back, whatever its description is. It
adds nothing but these files, their directory and those on the way to it, and leaves the next
installation nothing to write or to save. -/
theorem installs_what_is_missing (h : v.Fresh) (rs : List Request) (now : Int) (hr : r.Built)
    (hnames : ∀ name ∈ r.names, Registry.IsInstallable name) (bin : String) :
    let w := (v.serve rs).2.atClock now
    ((∃ names w', w.install r bin = (.ok names, w')) ↔
        ∀ q, q <+: Path.resolve bin "/" → ¬ w.tree.item?.HasFile q) ∧
      ∀ names w', w.install r bin = (.ok names, w') → w.Installed r bin names w' := by
  intro w
  have hw : w.tree.WellFormed := wellFormed_serve h rs
  have hslash := hr.no_slash fun name hname => (hnames name hname).toIsName
  exact ⟨exists_install_iff hw bin hslash,
    fun names w' hok => installed_of_install hw hr hnames hok⟩

/-- Two commands: one whose name has a space in it and whose description looks like a unit file, and
another. -/
def contrary : Registry :=
  .ofList [⟨"b", "Print", .cat⟩, ⟨"a b", "List\n#!py-sh b\n", .ls⟩]

/-- A volume with a unit file that was edited to name another command. -/
def outfitted : Volume :=
  unsaved (.ofNode (.directory (.ofDirectory 0) [("bin", .directory (.ofDirectory 0)
    [("b.cmd", .file (.ofFile 0) (.string "#!py-sh a b\n"))])])) 0

/-- The tree of this volume is read from a record. -/
theorem fresh_outfitted : outfitted.Fresh :=
  Or.inr ⟨.object [("type", .string "directory"), ("children", .object
    [("bin", .object [("type", .string "directory"), ("children", .object
      [("b.cmd", .object [("type", .string "file"),
        ("content", .string "#!py-sh a b\n")])])])])], rfl⟩

/-- These are the names of this registry. -/
theorem names_contrary : contrary.names = ["a b", "b"] :=
  Text.sorted_eq (List.Perm.swap _ _ []) (by decide)

/-- The missing unit file is written, and the one that was edited is left alone. -/
theorem installs_beside_edited_unit :
    ∃ w', ((outfitted.serve []).2.atClock 1).install contrary "x/../bin/" = (.ok ["a b"], w') ∧
      ((outfitted.serve []).2.atClock 1).Installed contrary "x/../bin/" ["a b"] w' := by
  have hnames : ∀ name ∈ contrary.names, Registry.IsInstallable name := by
    rw [names_contrary, List.forall_mem_cons, List.forall_mem_singleton]
    exact ⟨⟨⟨by decide, by decide⟩, by decide, by decide⟩,
      ⟨⟨by decide, by decide⟩, by decide, by decide⟩⟩
  have hok : (((outfitted.serve []).2.atClock 1).install contrary "x/../bin/").1 = .ok ["a b"] := by
    rw [install, Registry.toList, names_contrary]
    decide +kernel
  exact ⟨_, Prod.ext hok rfl, (installs_what_is_missing fresh_outfitted [] 1
    (Registry.built_ofList _) hnames "x/../bin/").2 _ _ (Prod.ext hok rfl)⟩

end Volume

end TreeShell
