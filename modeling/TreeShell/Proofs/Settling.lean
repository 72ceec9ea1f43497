import TreeShell.Proofs.Session.Printing
import TreeShell.Proofs.Volume.Equipping

/-!
# What a boot leaves in the tree

A boot makes its home directory, and adds only to the tree from then on; so the directory is there
in the end. Without a record the tree has little else before the unit files are written. So every
command of the registry can be run then, unless a directory on the way to the home directory stands
where its unit file should.
-/

namespace TreeShell

/-- An edit that adds something at a path, if anything. -/
inductive Edit.Adds : Edit → String → Prop where
  | directories (path : String) : Adds (.makeDirectories path) path
  | text (path : String) (content : Content) (append : Bool) :
    Adds (.write path content append) path

namespace Volume

variable {v v' : Volume} {e : Edit} {es : List Edit} {path : String} {q : Segments}

/-- To add something takes no directory away. -/
theorem hasDirectory_of_adds (h : v.tree.WellFormed) (he : e.Adds path)
    (hq : v.tree.item?.HasDirectory q) : (v.perform "/" e).2.tree.item?.HasDirectory q := by
  have hp := performed h "/" e
  generalize v.perform "/" e = result at hp
  cases hp with
  | idle => exact hq
  | refused => exact hq
  | saved hpermitted _ _ hm =>
    rw [tree_save]
    change Tree.item? _ = _ at hm
    rw [hm]
    cases he with
    | directories =>
      obtain ⟨item, hitem, hkind⟩ := hq
      rw [Edit.effect, PathMap.fill_eq_supplied]
      exact ⟨item, PathMap.supplied_of_some hitem, hkind⟩
    | text _ content append =>
      obtain ⟨-, hfile, new, hnew⟩ := hpermitted
      have hne : q ≠ Path.resolve path "/" := by
        rintro rfl
        exact hfile hq
      obtain ⟨item, hitem, hkind⟩ := hq
      rw [Edit.effect, PathMap.write, hnew]
      exact ⟨item, (if_neg hne).trans hitem, hkind⟩

/-- What is new after something was added is at its path, or on the way there. -/
theorem prefix_of_adds (h : v.tree.WellFormed) (he : e.Adds path)
    (hq : (v.perform "/" e).2.tree.item? q ≠ none) :
    v.tree.item? q ≠ none ∨ q <+: Path.resolve path "/" := by
  have hp := performed h "/" e
  generalize v.perform "/" e = result at hp hq
  cases hp with
  | idle => exact .inl hq
  | refused => exact .inl hq
  | saved hpermitted _ _ hm =>
    rw [tree_save] at hq
    change Tree.item? _ = _ at hm
    change Tree.item? _ q ≠ none at hq
    rw [hm] at hq
    by_cases hway : q <+: Path.resolve path "/"
    · exact .inr hway
    · cases he with
      | directories =>
        rw [Edit.effect, PathMap.fill, if_neg fun hno => hway hno.1] at hq
        exact .inl hq
      | text _ content append =>
        obtain ⟨-, -, new, hnew⟩ := hpermitted
        have hne : q ≠ Path.resolve path "/" := by
          rintro rfl
          exact hway (List.prefix_refl _)
        rw [Edit.effect, PathMap.write, hnew] at hq
        exact .inl ((if_neg hne).symm.trans_ne hq)

/-- What was added one after another. -/
theorem performAll_adds (h : v.tree.WellFormed) (hes : ∀ e ∈ es, ∃ path, e.Adds path) :
    (∀ q, v.tree.item?.HasDirectory q → (v.performAll es).2.tree.item?.HasDirectory q) ∧
      ∀ q, (v.performAll es).2.tree.item? q ≠ none →
        v.tree.item? q ≠ none ∨ ∃ e ∈ es, ∃ path, e.Adds path ∧ q <+: Path.resolve path "/" := by
  induction es generalizing v with
  | nil => exact ⟨fun _ => id, fun _ => .inl⟩
  | cons e rest ih =>
    obtain ⟨path, he⟩ := hes e List.mem_cons_self
    have hwf : (v.perform "/" e).2.tree.WellFormed := by
      rw [tree_perform]
      exact Tree.wellFormed_perform _ _ h e
    obtain ⟨hkept, hnew⟩ := ih hwf fun e' he' => hes e' (List.mem_cons_of_mem e he')
    have hdirs := fun q => hasDirectory_of_adds (q := q) h he
    have hplaces := fun q => prefix_of_adds (q := q) h he
    rw [performAll]
    generalize v.perform "/" e = result at hkept hnew hdirs hplaces
    obtain ⟨error | done, w⟩ := result
    · refine ⟨hdirs, fun q hq => (hplaces q hq).imp_right fun hway => ?_⟩
      exact ⟨e, List.mem_cons_self, path, he, hway⟩
    · refine ⟨fun q hq => hkept q (hdirs q hq), fun q hq => ?_⟩
      rcases hnew q hq with hthere | ⟨e', he', hlater⟩
      · exact (hplaces q hthere).imp_right fun hway => ⟨e, List.mem_cons_self, path, he, hway⟩
      · exact .inr ⟨e', List.mem_cons_of_mem e he', hlater⟩

end Volume

namespace Boot

variable {b : Boot} {registry : Registry} {clock : Int} {storage : Storage} {s : Session}
  {record : Option (Origin × Json)} {message : String} {v v' : Volume}

/-- The usual tree is made by edits that add something. -/
theorem adds_of_mem_usualTree (c : Config) : ∀ e ∈ usualTree c, ∃ path, e.Adds path := by
  rw [usualTree, List.forall_mem_cons, List.forall_mem_cons, List.forall_mem_singleton]
  exact ⟨⟨_, .directories _⟩, ⟨_, .directories _⟩, _, .text _ _ _⟩

/-- A tree that a boot can go on with: its home directory is there, and without a record there is
nothing but what was made for it. -/
structure Settled (b : Boot) (record : Option (Origin × Json)) (t : Tree) : Prop where
  wellFormed : t.WellFormed
  home : t.item?.HasDirectory (Path.resolve b.config.home "/")
  bare : record = none → ∀ q, t.item? q ≠ none → q <+: welcomePlace b.config ∨ q <+: ["tmp"]

/-- A directory is there when it has been made with those above it. -/
theorem hasDirectory_of_makeDirectories {path : String} (h : v.tree.WellFormed)
    (hv : v.perform "/" (.makeDirectories path) = (.ok (), v')) :
    v'.tree.WellFormed ∧ v'.tree.item?.HasDirectory (Path.resolve path "/") := by
  rcases Volume.perform_makeDirectories h path with ⟨e, q, hno, -⟩ | ⟨w, hw, hfree, hmade⟩
  · rw [hv] at hno
    cases hno
  · rw [hv] at hw
    cases hw
    refine ⟨hmade.wellFormed, ?_⟩
    rw [hmade.item]
    exact PathMap.hasDirectory_supplied_way (hfree _ (List.prefix_refl _))

/-- The usual tree is settled. -/
theorem settled_of_usualTree (h : v.tree = Tree.empty v.clock)
    (hv : v.performAll (usualTree b.config) = (.ok (), v')) : b.Settled record v'.tree := by
  have hwf : v.tree.WellFormed := h ▸ Tree.wellFormed_empty v.clock
  obtain ⟨w, hall, hwf', -⟩ := performAll_usualTree b.config h
  obtain ⟨-, hnew⟩ := Volume.performAll_adds hwf (adds_of_mem_usualTree b.config)
  rw [hv] at hall hnew
  cases hall
  refine ⟨hwf', ?_, fun _ q hq => ?_⟩
  · -- the home directory is made first, and stays
    have hadds := adds_of_mem_usualTree b.config
    rw [usualTree] at hadds hv
    rw [Volume.performAll] at hv
    split at hv
    · next w hhome =>
      obtain ⟨hw, hdir⟩ := hasDirectory_of_makeDirectories hwf hhome
      have hkept := (Volume.performAll_adds hw fun e he =>
        hadds e (List.mem_cons_of_mem _ he)).1 _ hdir
      rw [hv] at hkept
      exact hkept
    · cases hv
  · rcases hnew q hq with hthere | ⟨e, he, path, hadds, hway⟩
    · rw [h] at hthere
      have hroot : q = [] := by
        by_contra hne
        exact hthere (Tree.item?_empty_of_ne_nil hne)
      rw [hroot]
      exact .inl List.nil_prefix
    · rw [usualTree, List.mem_cons, List.mem_cons, List.mem_singleton] at he
      rcases he with rfl | rfl | rfl
      · cases hadds
        exact .inl (hway.trans (List.prefix_append _ _))
      · cases hadds
        exact .inr hway
      · cases hadds
        rw [resolve_welcome] at hway
        exact .inl hway

/-- A boot that has filled its volume has its home directory there. -/
theorem settled_of_fill (h : v.tree = Tree.empty v.clock)
    (hfill : b.fill v record = (.ok message, v')) : b.Settled record v'.tree := by
  cases record with
  | none =>
    rw [fill] at hfill
    split at hfill
    · next w hall =>
      cases hfill
      exact settled_of_usualTree h hall
    · cases hfill
  | some found =>
    obtain ⟨origin, r⟩ := found
    rw [fill] at hfill
    split at hfill
    · cases hfill
    · next t ht =>
      split at hfill
      · cases hfill
      · next w hhome =>
        have hwf : ({ v with tree := t } : Volume).tree.WellFormed := Tree.wellFormed_ofRecord ht
        obtain ⟨hw, hdir⟩ := hasDirectory_of_makeDirectories hwf hhome
        cases hfill
        have htree : (if origin = .storage then w else w.save).tree = w.tree := by
          split
          · rfl
          · exact Volume.tree_save w
        rw [htree]
        exact ⟨hw, hdir, fun hnone => by cases hnone⟩

/-- A boot that comes to a session has filled its volume and installed its unit files there. -/
theorem exists_of_run (hs : (b.run registry clock storage).1 = .ok s) :
    ∃ (record : Option (Origin × Json)) (w : Volume) (names : List String) (v' : Volume),
      b.record storage = .ok record ∧ b.Settled record w.tree ∧
      w.install registry b.config.bin = (.ok names, v') ∧
      ∃ journal, s = b.session registry { v' with journal } := by
  obtain ⟨record, message, v, hrecord, hfill, hfinish⟩ := exists_fill_of_run hs
  have hsettled : b.Settled record v.tree :=
    settled_of_fill (v := b.blankVolume clock storage) rfl hfill
  cases hi : (v.note .info .boot message).install registry b.config.bin with
  | mk outcome v' =>
    cases outcome with
    | error e =>
      rw [finish_of_error (b := b.filled message) hi] at hfinish
      cases hfinish
    | ok names =>
      obtain ⟨journal, hok⟩ := finish_of_ok (b := b.filled message) hi
      rw [hok] at hfinish
      cases hfinish
      exact ⟨record, v.note .info .boot message, names, v', hrecord, hsettled, hi, journal, rfl⟩

/-! ## The built-in commands -/

/-- All names of built-in commands can be installed. -/
theorem isInstallable_of_builtIns : ∀ name ∈ builtIns.names, Registry.IsInstallable name := by
  have hall : ∀ name ∈ builtIns.names, name ≠ "" ∧ '/' ∉ name.toList ∧ '\n' ∉ name.toList ∧
      Text.trimmed name = name := by
    rw [names_builtIns]
    decide +kernel
  intro name hname
  obtain ⟨hne, hslash, hline, htrimmed⟩ := hall name hname
  exact ⟨⟨hne, hslash⟩, hline, htrimmed⟩

theorem built_builtIns : builtIns.Built := Registry.built_ofList _

/-- A boot has its home directory in the end. -/
theorem hasDirectory_home (hs : (b.run builtIns clock storage).1 = .ok s) :
    s.volume.tree.item?.HasDirectory (Path.resolve b.config.home "/") := by
  obtain ⟨record, w, names, v', -, hsettled, hinstall, journal, rfl⟩ := exists_of_run hs
  have hinstalled := Volume.installed_of_install hsettled.wellFormed built_builtIns
    isInstallable_of_builtIns hinstall
  obtain ⟨item, hitem, hkind⟩ := hsettled.home
  exact ⟨item, hinstalled.kept _ _ hitem, hkind⟩

/-- The commands of a booted session are where its config has them. -/
theorem bin_of_run (hs : (b.run registry clock storage).1 = .ok s) : s.bin = b.config.bin := by
  have hpath : s.env.get? "PATH" = some b.config.bin :=
    get?_of_run hs (by simp [Config.startVariables])
  exact Environment.nonEmptyOr_of_get? hpath fun _ => rfl

/-- Without a record, a unit file is in the way of nothing that is there before, unless it is on the
way to the home directory. -/
theorem Settled.free {t : Tree} (h : b.Settled none t) {bin : Segments} {name : String}
    (hway : ¬ bin ++ [name ++ Command.unitSuffix] <+: Path.resolve b.config.home "/") :
    t.item? (bin ++ [name ++ Command.unitSuffix]) = none := by
  have hname : ∀ other : String, Text.hasTail other Command.unitSuffix = false →
      name ++ Command.unitSuffix ≠ other := by
    rintro other hother rfl
    rw [(Text.withoutTail_append name Command.unitSuffix).1] at hother
    cases hother
  by_contra hthere
  rcases h.bare rfl _ hthere with hhome | htmp
  · rw [welcomePlace, List.prefix_concat_iff] at hhome
    rcases hhome with heq | hhome
    · exact hname "README.md" (by decide) (List.singleton_inj.mp (List.append_inj_right' heq rfl))
    · exact hway hhome
  · have hmem := htmp.subset (List.mem_append_right _ List.mem_cons_self)
    exact hname "tmp" (by decide) (List.mem_singleton.mp hmem)

/-- Without a record, a built-in command can be run after a boot just if no directory on the way to
the home directory is where its unit file should be. -/
theorem runs_unless_in_way (hs : (b.run builtIns clock storage).1 = .ok s)
    (hfresh : b.record storage = .ok none) {name : String} {c : Command}
    (hc : builtIns.get? name = some c) (halias : usualAliases.get? name = none) :
    let unit := Path.resolve b.config.bin "/" ++ [name ++ Command.unitSuffix]
    (¬ unit <+: Path.resolve b.config.home "/" → s.Runs name c.program) ∧
      (unit <+: Path.resolve b.config.home "/" →
        ∃ e, s.registry.load s.volume.tree name s.bin = .error (.unreadable name e)) := by
  intro unit
  have hname : name ∈ builtIns.names := Registry.mem_names_iff.mpr ⟨c, hc⟩
  have hvalid := (isInstallable_of_builtIns name hname).toIsName
  have hplace : Path.resolve (Command.unitPath name b.config.bin) "/" = unit :=
    Command.resolve_unitPath hvalid.no_slash b.config.bin
  constructor
  · intro hway
    have hbin := bin_of_run hs
    have haliases := aliases_of_run hs
    obtain ⟨record, w, names, v', hrecord, hsettled, hinstall, journal, rfl⟩ := exists_of_run hs
    rw [hfresh, Except.ok.injEq] at hrecord
    subst hrecord
    have hinstalled := Volume.installed_of_install hsettled.wellFormed built_builtIns
      isInstallable_of_builtIns hinstall
    have hmissing : w.tree.contains (Command.unitPath name b.config.bin) "/" = false := by
      rw [← Bool.not_eq_true, Volume.tree_contains_iff, not_not, hplace]
      exact hsettled.free hway
    have hmem := (hinstalled.mem_iff name).mpr ⟨hname, hmissing⟩
    obtain ⟨c', hc', hload⟩ := hinstalled.loads name hmem
    rw [hc, Option.some.injEq] at hc'
    subst hc'
    refine ⟨by rw [haliases]; exact halias, c, ?_, rfl⟩
    rw [hbin]
    exact hload
  · intro hway
    obtain ⟨d, hd⟩ := Tree.hasDirectory_iff.mp (hasDirectory_home hs)
    have hdir := hd.hasDirectory_of_prefix hway
    rw [bin_of_run hs, Registry.load, if_neg (Registry.isName_iff.mp hvalid)]
    dsimp only
    cases hcontent : s.volume.tree.content (Command.unitPath name b.config.bin) "/" with
    | error e => exact ⟨e, rfl⟩
    | ok content =>
      have hfile := Tree.isFile_iff.mp (Tree.isFile_iff_content.mpr ⟨content, hcontent⟩)
      rw [hplace] at hfile
      exact absurd hfile hdir.not_hasFile

end Boot

end TreeShell
