import TreeShell.Command.Unit
import TreeShell.Proofs.Path
import TreeShell.Proofs.Volume.Keeping

/-!
# Missing directories and unit files

To make a directory and to install unit files is to put something at places that are free and to
leave all other places alone. Neither does anything where nothing is missing.
-/

namespace TreeShell

namespace PathMap

/-- A map with what another has at the places that are free. -/
def supplied (m extra : PathMap) : PathMap := fun p => (m p).or (extra p)

/-- Directories at a place and at all places on the way to it. -/
def way (now : Int) (place : Segments) : PathMap := fun p =>
  if p <+: place then some ⟨.ofDirectory now, none⟩ else none

/-- The unit files of some commands, in a directory. -/
def units (now : Int) (bin : Segments) (commands : List Command) : PathMap := fun p =>
  (commands.find? fun c => p = bin ++ [c.name ++ Command.unitSuffix]).map fun c =>
    ⟨.ofFile now, some (.string c.unitSource)⟩

/-- A directory for unit files, those on the way to it, and the unit files of some commands. -/
def equipment (now : Int) (bin : Segments) (commands : List Command) : PathMap :=
  (way now bin).supplied (units now bin commands)

variable {m extra extra' : PathMap} {p : Segments}

/-- Nothing is put where there is something. -/
theorem supplied_of_some {item : Item} (h : m p = some item) :
    m.supplied extra p = some item := by
  rw [supplied, h, Option.some_or]

/-- Where there is nothing, there is afterwards what was supplied. -/
theorem supplied_of_none (h : m p = none) : m.supplied extra p = extra p := by
  rw [supplied, h, Option.none_or]

/-- To supply twice is to supply once what was supplied to the first. -/
theorem supplied_supplied (m extra extra' : PathMap) :
    (m.supplied extra).supplied extra' = m.supplied (extra.supplied extra') :=
  funext fun _ => Option.or_assoc

/-- Where nothing is missing, nothing is supplied. -/
theorem supplied_of_full (h : ∀ p, extra p ≠ none → m p ≠ none) : m.supplied extra = m := by
  funext p
  cases hm : m p with
  | some item => exact supplied_of_some hm
  | none =>
    have hextra : extra p = none := by
      by_contra hne
      exact h p hne hm
    rw [supplied_of_none hm, hextra]

/-- Nothing changes just if there is something at all places that are supplied. -/
theorem supplied_eq_self_iff : m.supplied extra = m ↔ ∀ p, extra p ≠ none → m p ≠ none := by
  refine ⟨fun h p hp hm => hp ?_, supplied_of_full⟩
  have hextra : m.supplied extra p = extra p := supplied_of_none hm
  rw [← hextra, h, hm]

/-- There is something where there was or where something is supplied. -/
theorem supplied_ne_none (h : m p ≠ none ∨ extra p ≠ none) : m.supplied extra p ≠ none := by
  rw [supplied, ne_eq, Option.or_eq_none_iff]
  exact fun hnone => h.elim (fun hm => hm hnone.1) fun he => he hnone.2

/-- The way to a place leads over the places before it, and to itself. -/
theorem way_ne_none_iff {now : Int} {place : Segments} : way now place p ≠ none ↔ p <+: place := by
  simp [way]

/-- No directory that is supplied is a file. -/
theorem HasFile.of_way {now : Int} {place : Segments} (h : (m.supplied (way now place)).HasFile p) :
    m.HasFile p := by
  obtain ⟨item, hi, hfile⟩ := h
  cases hm : m p with
  | some item' =>
    rw [supplied_of_some hm] at hi
    exact ⟨item, by rw [hm, hi], hfile⟩
  | none =>
    rw [supplied_of_none hm, way] at hi
    split at hi
    · cases hi
      cases hfile
    · cases hi

/-- A way puts no file anywhere. -/
theorem hasFile_supplied_way_iff {now : Int} {place : Segments} :
    (m.supplied (way now place)).HasFile p ↔ m.HasFile p := by
  refine ⟨HasFile.of_way, ?_⟩
  rintro ⟨item, hi, hfile⟩
  exact ⟨item, supplied_of_some hi, hfile⟩

/-- Where directories are supplied and no file is in the way, there is a directory. -/
theorem hasDirectory_supplied_way {now : Int} {place : Segments} (h : ¬ m.HasFile place) :
    (m.supplied (way now place)).HasDirectory place := by
  cases hm : m place with
  | some item =>
    refine ⟨item, supplied_of_some hm, ?_⟩
    by_contra hfile
    exact h ⟨item, hm, eq_false_of_ne_true hfile⟩
  | none =>
    refine ⟨⟨.ofDirectory now, none⟩, ?_, rfl⟩
    rw [supplied_of_none hm, way, if_pos (List.prefix_refl _)]

/-- To make all directories on a way is to supply the way. -/
theorem fill_eq_supplied (m : PathMap) (now : Int) (place : Segments) :
    m.fill place ⟨.ofDirectory now, none⟩ = m.supplied (way now place) := by
  funext p
  cases hm : m p with
  | some item => simp [fill, supplied, hm]
  | none => simp [fill, supplied, way, hm]

/-- What is on a way is a directory of its time. -/
theorem way_eq_some {now : Int} {place : Segments} {item : Item} (h : way now place p = some item) :
    p <+: place ∧ item = ⟨.ofDirectory now, none⟩ := by
  rw [way, Option.ite_none_right_eq_some] at h
  exact ⟨h.1, (Option.some.inj h.2).symm⟩

/-- A unit that is supplied is that of one of the commands. -/
theorem units_eq_some {now : Int} {bin : Segments} {commands : List Command} {item : Item}
    (h : units now bin commands p = some item) :
    ∃ c ∈ commands, p = bin ++ [c.name ++ Command.unitSuffix] ∧
      item = ⟨.ofFile now, some (.string c.unitSource)⟩ := by
  obtain ⟨c, hc, rfl⟩ := Option.map_eq_some_iff.mp h
  have hplace : p = bin ++ [c.name ++ Command.unitSuffix] := by simpa using List.find?_some hc
  exact ⟨c, List.mem_of_find?_eq_some hc, hplace, rfl⟩

/-- The first command with a name supplies the unit. -/
theorem units_cons (now : Int) (bin : Segments) (c : Command) (rest : List Command) :
    units now bin (c :: rest) p =
      if p = bin ++ [c.name ++ Command.unitSuffix] then
        some ⟨.ofFile now, some (.string c.unitSource)⟩
      else units now bin rest p := by
  rw [units, List.find?_cons]
  split
  · next h => rw [if_pos (of_decide_eq_true h), Option.map_some]
  · next h =>
    rw [if_neg (of_decide_eq_false h)]
    rfl

/-- A unit file whose place is taken is not supplied. -/
theorem supplied_units_cons_of_ne_none {now : Int} {bin : Segments} {c : Command}
    {rest : List Command} (h : m (bin ++ [c.name ++ Command.unitSuffix]) ≠ none) :
    m.supplied (units now bin (c :: rest)) = m.supplied (units now bin rest) := by
  funext p
  cases hp : m p with
  | some item => rw [supplied_of_some hp, supplied_of_some hp]
  | none =>
    rw [supplied_of_none hp, supplied_of_none hp, units_cons, if_neg]
    rintro rfl
    exact h hp

/-- To supply unit files is to put the first that is missing, and supply the rest. -/
theorem supplied_units_cons_of_none {now : Int} {bin : Segments} {c : Command}
    {rest : List Command} (h : m (bin ++ [c.name ++ Command.unitSuffix]) = none) :
    m.supplied (units now bin (c :: rest)) =
      (m.put (bin ++ [c.name ++ Command.unitSuffix])
        ⟨.ofFile now, some (.string c.unitSource)⟩).supplied (units now bin rest) := by
  funext p
  by_cases hp : p = bin ++ [c.name ++ Command.unitSuffix]
  · rw [supplied, supplied, put, if_pos hp, Option.some_or, hp, h, units_cons, if_pos rfl,
      Option.none_or]
  · rw [supplied, supplied, put, if_neg hp, units_cons, if_neg hp]

end PathMap

namespace Command

variable {name : String}

/-- The name of a unit file is a proper segment if that of the command holds no slash. -/
theorem isProper_unitName (h : '/' ∉ name.toList) : Path.IsProper (name ++ unitSuffix) := by
  have hlast : (name ++ unitSuffix).toList.getLast? = some 'd' := by
    rw [String.toList_append, List.getLast?_append]
    rfl
  have hne : ∀ s : String, s.toList.getLast? ≠ some 'd' → name ++ unitSuffix ≠ s := by
    rintro s hs rfl
    exact hs hlast
  refine ⟨hne _ (by decide), hne _ (by decide), hne _ (by decide), ?_⟩
  rw [String.toList_append, List.mem_append, not_or]
  exact ⟨h, by decide⟩

/-- The unit of a name without slashes is an entry of the directory of commands. -/
theorem resolve_unitPath (h : '/' ∉ name.toList) (bin : String) :
    Path.resolve (unitPath name bin) "/" = Path.resolve bin "/" ++ [name ++ unitSuffix] := by
  refine Path.resolve_format (fun s hs => ?_) "/"
  rcases List.mem_append.mp hs with hs | hs
  · exact Path.proper_resolve_root bin s hs
  · rw [List.mem_singleton.mp hs]
    exact isProper_unitName h

end Command

namespace Volume

variable {v v' : Volume}

/-- A tree contains a path just if there is an item at it. -/
theorem tree_contains_iff (t : Tree) (path cwd : String) :
    t.contains path cwd = true ↔ t.item? (Path.resolve path cwd) ≠ none := by
  rw [Tree.contains, Option.isSome_iff_ne_none, ne_eq, Tree.lookup_eq_none_iff]

/-- A save takes no time. -/
@[simp] theorem clock_save (v : Volume) : v.save.clock = v.clock := by
  unfold save
  split
  · rfl
  · split
    · rfl
    · rfl

/-- What a volume comes to when something is supplied: the tree has it at the places that were free,
and it is the same volume if there was no such place. -/
structure Supplied (v : Volume) (extra : PathMap) (v' : Volume) : Prop where
  wellFormed : v'.tree.WellFormed
  item : v'.tree.item? = v.tree.item?.supplied extra
  clock : v'.clock = v.clock
  idle : (∀ p, extra p ≠ none → v.tree.item? p ≠ none) → v' = v

/-- Nothing is supplied if nothing is done. -/
theorem Supplied.refl (h : v.tree.WellFormed) : v.Supplied (fun _ => none) v where
  wellFormed := h
  item := (PathMap.supplied_of_full fun _ hp => absurd rfl hp).symm
  clock := rfl
  idle _ := rfl

/-- What is supplied twice is supplied together. -/
theorem Supplied.trans {v'' : Volume} {extra extra' : PathMap} (h : v.Supplied extra v')
    (h' : v'.Supplied extra' v'') : v.Supplied (extra.supplied extra') v'' where
  wellFormed := h'.wellFormed
  item := by rw [h'.item, h.item, PathMap.supplied_supplied]
  clock := h'.clock.trans h.clock
  idle hfull := by
    have hfirst : v' = v := h.idle fun p hp => hfull p (PathMap.supplied_ne_none (Or.inl hp))
    subst hfirst
    exact h'.idle fun p hp => hfull p (PathMap.supplied_ne_none (Or.inr hp))

/-- To make directories is to supply those that are missing; it is refused just if a file is in the
way. -/
theorem perform_makeDirectories (h : v.tree.WellFormed) (path : String) :
    (∃ e q, v.perform "/" (.makeDirectories path) = (.error e, v) ∧
        q <+: Path.resolve path "/" ∧ v.tree.item?.HasFile q) ∨
      (∃ v', v.perform "/" (.makeDirectories path) = (.ok (), v') ∧
        (∀ q, q <+: Path.resolve path "/" → ¬ v.tree.item?.HasFile q) ∧
        v.Supplied (PathMap.way v.clock (Path.resolve path "/")) v') := by
  have hp := performed h "/" (.makeDirectories path)
  generalize v.perform "/" (.makeDirectories path) = result at hp
  cases hp with
  | @saved t hfree hi hw hm =>
    refine Or.inr ⟨_, rfl, hfree, ?_⟩
    rw [Edit.effect, PathMap.fill_eq_supplied] at hm
    exact {
      wellFormed := by rw [tree_save]; exact hw
      item := by rw [tree_save]; exact hm
      clock := clock_save _
      idle hfull := absurd (fun q hq => hfull q (PathMap.way_ne_none_iff.mpr hq)) hi }
  | idle hfree hi =>
    refine Or.inr ⟨_, rfl, hfree, h, ?_, rfl, fun _ => rfl⟩
    exact (PathMap.supplied_of_full fun q hq => hi q (PathMap.way_ne_none_iff.mp hq)).symm
  | @refused e hfile =>
    rw [Edit.Permitted] at hfile
    push Not at hfile
    obtain ⟨q, hq, hf⟩ := hfile
    exact Or.inl ⟨e, q, rfl, hq, hf⟩

/-- A text that is written to a free place in a directory is put there. -/
theorem perform_write_free {path name : String} {directory : Segments} (text : String)
    (h : v.tree.WellFormed) (hplace : Path.resolve path "/" = directory ++ [name])
    (hdir : v.tree.item?.HasDirectory directory)
    (hfree : v.tree.item? (directory ++ [name]) = none) :
    ∃ v', v.perform "/" (.write path (.string text) false) = (.ok (), v') ∧
      v'.tree.WellFormed ∧ v'.clock = v.clock ∧
      v'.tree.item? =
        v.tree.item?.put (directory ++ [name]) ⟨.ofFile v.clock, some (.string text)⟩ := by
  have hp := performed h "/" (.write path (.string text) false)
  have hpermitted : (Edit.write path (.string text) false).Permitted "/" v.tree.item? := by
    rw [Edit.Permitted, hplace]
    refine ⟨PathMap.hasParent_concat_iff.mpr hdir, PathMap.not_hasDirectory_of_none hfree, ?_⟩
    exact ⟨_, PathMap.written_over _ _⟩
  generalize v.perform "/" _ = result at hp
  cases hp with
  | @saved t _ _ hw hm =>
    refine ⟨_, rfl, by rw [tree_save]; exact hw, clock_save _, ?_⟩
    rw [tree_save, hm, Edit.effect, hplace, PathMap.write, hfree]
    rfl
  | idle _ hi => exact hi.elim
  | refused hno => exact absurd hpermitted hno

/-- A unit is there just if there is an item at its place. -/
theorem contains_unitPath_iff {t : Tree} {name : String} (h : '/' ∉ name.toList) (bin : String) :
    t.contains (Command.unitPath name bin) "/" = true ↔
      t.item? (Path.resolve bin "/" ++ [name ++ Command.unitSuffix]) ≠ none := by
  rw [tree_contains_iff, Command.resolve_unitPath h]

/-- What is done for the first of some commands: nothing where something is at the path of its unit
file, and else that is written, into the directory that is there. -/
theorem installAll_cons {bin : String} {c : Command} (h : v.tree.WellFormed)
    (hbin : v.tree.item?.HasDirectory (Path.resolve bin "/")) (hname : '/' ∉ c.name.toList)
    (rest : List Command) :
    (v.tree.item? (Path.resolve bin "/" ++ [c.name ++ Command.unitSuffix]) ≠ none ∧
        installAll bin (c :: rest) v = installAll bin rest v) ∨
      (v.tree.item? (Path.resolve bin "/" ++ [c.name ++ Command.unitSuffix]) = none ∧
        ∃ w, w.tree.WellFormed ∧ w.tree.item?.HasDirectory (Path.resolve bin "/") ∧
          w.clock = v.clock ∧
          w.tree.item? = v.tree.item?.put (Path.resolve bin "/" ++ [c.name ++ Command.unitSuffix])
            ⟨.ofFile v.clock, some (.string c.unitSource)⟩ ∧
          installAll bin (c :: rest) v =
            ((installAll bin rest w).1.map (c.name :: ·), (installAll bin rest w).2)) := by
  have hplace := Command.resolve_unitPath hname bin
  rw [installAll]
  by_cases hthere : v.tree.contains (Command.unitPath c.name bin) "/" = true
  · rw [if_pos hthere]
    exact Or.inl ⟨(contains_unitPath_iff hname bin).mp hthere, rfl⟩
  · rw [if_neg hthere]
    rw [contains_unitPath_iff hname bin, not_not] at hthere
    obtain ⟨w, hwrite, hw, hclock, hput⟩ := perform_write_free c.unitSource h hplace hbin hthere
    have hbin' : w.tree.item?.HasDirectory (Path.resolve bin "/") := by
      obtain ⟨item, hi, hdir⟩ := hbin
      refine ⟨item, ?_, hdir⟩
      rw [hput, PathMap.put, if_neg (by simp), hi]
    refine Or.inr ⟨hthere, w, hw, hbin', hclock, hput, ?_⟩
    rw [hwrite]
    dsimp only
    cases installAll bin rest w with
    | mk outcome v' => cases outcome <;> rfl

/-- To write the missing unit files into a directory that is there is to supply them. -/
theorem installAll_spec {bin : String} {commands : List Command} (h : v.tree.WellFormed)
    (hbin : v.tree.item?.HasDirectory (Path.resolve bin "/"))
    (hnames : ∀ c ∈ commands, '/' ∉ c.name.toList) :
    ∃ names v', installAll bin commands v = (.ok names, v') ∧
      v.Supplied (PathMap.units v.clock (Path.resolve bin "/") commands) v' ∧
      ((∀ p, PathMap.units v.clock (Path.resolve bin "/") commands p ≠ none →
        v.tree.item? p ≠ none) → names = []) := by
  induction commands generalizing v with
  | nil => exact ⟨[], v, rfl, .refl h, fun _ => rfl⟩
  | cons c rest ih =>
    have hrest : ∀ c' ∈ rest, '/' ∉ c'.name.toList := fun c' hc =>
      hnames c' (List.mem_cons_of_mem c hc)
    rcases installAll_cons h hbin (hnames c List.mem_cons_self) rest with
      ⟨hthere, hstep⟩ | ⟨hfree, w, hw, hbin', hclock, hput, hstep⟩
    · obtain ⟨names, v', hok, hsupplied, hnone⟩ := ih h hbin hrest
      have hsame : v.tree.item?.supplied
          (PathMap.units v.clock (Path.resolve bin "/") (c :: rest)) =
            v.tree.item?.supplied (PathMap.units v.clock (Path.resolve bin "/") rest) :=
        PathMap.supplied_units_cons_of_ne_none hthere
      rw [← PathMap.supplied_eq_self_iff] at hnone
      rw [hstep, ← PathMap.supplied_eq_self_iff, hsame]
      refine ⟨names, v', hok, ⟨hsupplied.wellFormed, ?_, hsupplied.clock, ?_⟩, hnone⟩
      · rw [hsame, hsupplied.item]
      · rw [← PathMap.supplied_eq_self_iff, hsame, PathMap.supplied_eq_self_iff]
        exact hsupplied.idle
    · obtain ⟨names, v', hok, hsupplied, -⟩ := ih hw hbin' hrest
      have hmissing : ¬ ∀ p, PathMap.units v.clock (Path.resolve bin "/") (c :: rest) p ≠ none →
          v.tree.item? p ≠ none := by
        intro hall
        refine hall (Path.resolve bin "/" ++ [c.name ++ Command.unitSuffix]) ?_ hfree
        rw [PathMap.units_cons, if_pos rfl]
        exact Option.some_ne_none _
      rw [hstep, hok]
      refine ⟨c.name :: names, v', rfl, ⟨hsupplied.wellFormed, ?_, ?_,
        fun hall => absurd hall hmissing⟩, fun hall => absurd hall hmissing⟩
      · rw [hsupplied.item, hclock, hput, PathMap.supplied_units_cons_of_none hfree]
      · rw [hsupplied.clock, hclock]

/-- To install the unit files of a registry is to supply its directory and those that are missing;
it is refused just if a file is in the way of the directory. -/
theorem install_spec {r : Registry} (h : v.tree.WellFormed) (bin : String)
    (hnames : ∀ c ∈ r.toList, '/' ∉ c.name.toList) :
    (∃ e q, v.install r bin = (.error e, v) ∧ q <+: Path.resolve bin "/" ∧
        v.tree.item?.HasFile q) ∨
      (∃ names v', v.install r bin = (.ok names, v') ∧
        (∀ q, q <+: Path.resolve bin "/" → ¬ v.tree.item?.HasFile q) ∧
        v.Supplied (PathMap.equipment v.clock (Path.resolve bin "/") r.toList) v' ∧
        ((∀ p, PathMap.equipment v.clock (Path.resolve bin "/") r.toList p ≠ none →
          v.tree.item? p ≠ none) → names = [])) := by
  rw [install]
  rcases perform_makeDirectories h bin with ⟨e, q, hv, hq, hf⟩ | ⟨v₁, hv, hfree, hmade⟩
  · rw [hv]
    exact Or.inl ⟨e, q, rfl, hq, hf⟩
  · right
    rw [hv]
    have hbin : v₁.tree.item?.HasDirectory (Path.resolve bin "/") := by
      rw [hmade.item]
      exact PathMap.hasDirectory_supplied_way (hfree _ (List.prefix_refl _))
    obtain ⟨names, v', hok, hsupplied, hnone⟩ := installAll_spec hmade.wellFormed hbin hnames
    rw [hmade.clock] at hsupplied hnone
    refine ⟨names, v', hok, hfree, hmade.trans hsupplied, fun hfull => ?_⟩
    have hsame : v₁ = v := hmade.idle fun p hp => hfull p (PathMap.supplied_ne_none (Or.inl hp))
    rw [hsame] at hnone
    exact hnone fun p hp => hfull p (PathMap.supplied_ne_none (Or.inr hp))

/-! ## Room for all unit files -/

/-- The volume with the unit file of a command, made in the directory that has a number. -/
def withUnit (directory : Nat) (v : Volume) (c : Command) : Volume :=
  { v with tree := (v.tree.add directory (c.name ++ Command.unitSuffix)
      ⟨.ofFile v.clock, .file (.string c.unitSource)⟩).1 }.save

/-- The tree with a unit is the tree with one file more. -/
theorem tree_withUnit (d : Nat) (v : Volume) (c : Command) :
    (v.withUnit d c).tree = (v.tree.add d (c.name ++ Command.unitSuffix)
      ⟨.ofFile v.clock, .file (.string c.unitSource)⟩).1 :=
  tree_save _

/-- Whether a place has a directory, with a number, that has none of the unit files of some
commands. -/
structure RoomFor (v : Volume) (place : Segments) (d : Nat) (commands : List Command) : Prop where
  wellFormed : v.tree.WellFormed
  directoryAt : v.tree.DirectoryAt place d
  apart : (commands.map Command.name).Nodup
  noSlash : ∀ c ∈ commands, '/' ∉ c.name.toList
  free : ∀ c ∈ commands, v.tree.child? d (c.name ++ Command.unitSuffix) = none

/-- When the first unit file is made, there is still room for the others. -/
theorem RoomFor.withUnit {place : Segments} {d : Nat} {c : Command} {rest : List Command}
    (h : v.RoomFor place d (c :: rest)) : (v.withUnit d c).RoomFor place d rest := by
  obtain ⟨hnew, hrest⟩ := List.nodup_cons.mp h.apart
  have hc : v.tree.child? d (c.name ++ Command.unitSuffix) = none := h.free c List.mem_cons_self
  have hleaf : (⟨.ofFile v.clock, .file (.string c.unitSource)⟩ : Inode).children = ∅ := rfl
  refine ⟨?_, ⟨?_, ?_⟩, hrest, fun c' hc' => h.noSlash c' (List.mem_cons_of_mem c hc'), ?_⟩
  · rw [tree_withUnit]
    exact Tree.wellFormed_add h.wellFormed h.directoryAt hc hleaf
  · rw [tree_withUnit, Tree.find?_add h.wellFormed h.directoryAt hc hleaf, if_neg (by simp),
      h.directoryAt.found]
  · rw [tree_withUnit, Tree.exists_directory_iff, Tree.itemOf_add h.wellFormed h.directoryAt,
      if_neg (h.directoryAt.ne_next h.wellFormed)]
    exact Tree.exists_directory_iff.mp h.directoryAt.directory
  · intro c' hc'
    have hne : c'.name ++ Command.unitSuffix ≠ c.name ++ Command.unitSuffix := by
      intro he
      have hname : c'.name = c.name := by simpa using he
      exact hnew (hname ▸ List.mem_map_of_mem hc')
    rw [tree_withUnit, Tree.child?_add h.wellFormed h.directoryAt hleaf, if_neg fun he => hne he.2]
    exact h.free c' (List.mem_cons_of_mem c hc')

/-- Where there is room for them, all unit files are made, one after another. -/
theorem RoomFor.installAll_eq {bin : String} {d : Nat} {commands : List Command}
    (h : v.RoomFor (Path.resolve bin "/") d commands) :
    installAll bin commands v =
      (.ok (commands.map Command.name), commands.foldl (.withUnit d) v) := by
  induction commands generalizing v with
  | nil => rfl
  | cons c rest ih =>
    have hc : v.tree.child? d (c.name ++ Command.unitSuffix) = none := h.free c List.mem_cons_self
    have hplace := Command.resolve_unitPath (h.noSlash c List.mem_cons_self) bin
    have hmissing : v.tree.contains (Command.unitPath c.name bin) "/" = false := by
      rw [Tree.contains, hplace, Tree.lookup_of_find?_none (Tree.find?_of_free h.directoryAt hc)]
      rfl
    have hwrite : v.perform "/" (.write (Command.unitPath c.name bin) (.string c.unitSource)
        false) = (.ok (), v.withUnit d c) := by
      rw [perform, Edit.perform, Tree.write_free hplace h.directoryAt hc]
      rfl
    rw [installAll, hmissing, if_neg Bool.false_ne_true, hwrite]
    dsimp only
    rw [ih h.withUnit]
    rfl

end Volume

end TreeShell
