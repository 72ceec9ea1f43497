import TreeShell.Proofs.Session.Runs
import TreeShell.Proofs.Tree.Records
import TreeShell.Proofs.Volume.Installing

/-!
# Booting again

A boot that is saved to memory leaves the record of its tree there, and so does every line that is
run after it. The next boot from the same place starts with that record, never with the seed: it
finds every node as it was left, and adds only the directories and the unit files that are missing.
-/

namespace TreeShell

open Volume

/-- The volume of a session that is in order and saved to memory: one tree, whose files are read
back as they are, and its record in the cell. -/
structure Volume.Safe (c : Nat) (v : Volume) : Prop where
  tree : v.tree.WellHolds Json.IsLasting
  saved : v.Saved c

/-- A volume stays safe while it is edited with known contents. -/
theorem Volume.Safe.perform {c : Nat} {v : Volume} (h : v.Safe c) (cwd : String) {e : Edit}
    (he : e.WritesKnown v.tree.item?) : (v.perform cwd e).2.Safe c where
  tree := by
    rw [tree_perform]
    exact h.tree.perform Json.isLasting_string _ cwd he
  saved := h.saved.perform h.tree.wellFormed cwd e

/-- What is noted does not matter to it. -/
theorem Volume.Safe.withJournal {c : Nat} {v : Volume} (h : v.Safe c) (journal : Journal) :
    Volume.Safe c { v with journal } where
  tree := h.tree
  saved := ⟨⟨h.saved.store, h.saved.cell⟩, h.saved.stored⟩

/-- A volume stays safe as time goes on. -/
theorem Volume.Safe.withClock {c : Nat} {v : Volume} (h : v.Safe c) (clock : Int) :
    Volume.Safe c { v with clock } where
  tree := h.tree
  saved := ⟨⟨h.saved.store, h.saved.cell⟩, h.saved.stored⟩

namespace Boot

variable {b : Boot} {registry : Registry} {v v' : Volume}

/-! ## What a boot ends with -/

/-- What the boot log says about the unit files that were written. -/
def installedLine (b : Boot) (names : List String) : String :=
  "[OK] " ++ ("Installed " ++ toString names.length ++ " command units in " ++ b.config.bin)

/-- What the boot log says in the end. -/
def readyLine (b : Boot) : String :=
  "[OK] " ++ ("Shell ready for " ++ b.config.user ++ "@" ++ b.config.hostname)

/-- A boot whose commands cannot be installed stops there. -/
theorem finish_of_error {e : PathError} (h : v.install registry b.config.bin = (.error e, v')) :
    b.finish registry v = (.error (.tree e), { b with stage := .commands }, v'.storage) := by
  rw [finish]
  dsimp only
  rw [h]

/-- A boot whose commands are installed ends with a session. -/
theorem finish_of_ok {names : List String}
    (h : v.install registry b.config.bin = (.ok names, v')) :
    ∃ journal, b.finish registry v =
      (.ok (b.session registry { v' with journal }),
        { b with stage := .shell, lines := b.lines ++ [b.installedLine names] ++ [b.readyLine] },
        v'.storage) := by
  rw [finish]
  dsimp only
  rw [h]
  exact ⟨_, rfl⟩

/-! ## The first boot -/

/-- A store that has no record leaves the choice to the seed. -/
theorem origin_of_record {storage : Storage} {origin : Origin} {r : Json}
    (hempty : b.store.load storage = .ok none) (h : b.record storage = .ok (some (origin, r))) :
    origin ≠ .storage := by
  rw [Boot.record, hempty] at h
  dsimp only at h
  unfold seedRecord at h
  split at h
  · cases h
  · next l _ =>
    split at h
    · cases h
    · split at h
      · cases h
        exact nofun
      · cases h
    · split at h
      · obtain ⟨r', -, hr⟩ := Option.map_eq_some_iff.mp (Except.ok.inj h)
        cases hr
        exact nofun
      · cases h

/-- A boot that finds no record in its cell has put the record of its tree there when it has filled
the volume. -/
theorem saved_of_fill {c : Nat} {record : Option (Origin × Json)} {message : String}
    (h : v.SavesTo c) (hw : v.tree.WellFormed)
    (horigin : ∀ origin r, record = some (origin, r) → origin ≠ .storage)
    (hfill : b.fill v record = (.ok message, v')) : v'.Saved c := by
  cases record with
  | none =>
    rw [fill] at hfill
    split at hfill
    · next hall =>
      have hlast : (usualTree b.config).getLast? = some
          (.write (Text.withoutEndSlashes b.config.home ++ "/README.md") (.string welcome) false) :=
        rfl
      cases hfill
      exact h.performAll hw hlast (fun m => id) hall
    · cases hfill
  | some found =>
    obtain ⟨origin, r⟩ := found
    rw [fill] at hfill
    split at hfill
    · cases hfill
    · next tree htree =>
      have hv : ({ v with tree } : Volume).SavesTo c := ⟨h.store, h.cell⟩
      have hmake := hv.perform (Tree.wellFormed_ofRecord htree) "/" (.makeDirectories b.config.home)
      split at hfill
      · cases hfill
      · next hp =>
        rw [hp] at hmake
        cases hfill
        rw [if_neg (horigin origin r rfl)]
        exact hmake.save

/-- To be safe is kept by edits with texts. -/
theorem keptByTexts_safe (c : Nat) : Volume.KeptByTexts (Volume.Safe c) :=
  fun _ _ he h => h.perform "/" (he.known _)

/-- A boot ends with a volume that is safe if it was when its tree was there. -/
theorem safe_of_finish {c : Nat} {s : Session} (h : v.Safe c)
    (hs : (b.finish registry v).1 = .ok s) : s.volume.Safe c := by
  have hinstall := Volume.install_keeps (keptByTexts_safe c) registry b.config.bin h
  cases hi : v.install registry b.config.bin with
  | mk outcome v' =>
    rw [hi] at hinstall
    cases outcome with
    | error e =>
      rw [finish_of_error hi] at hs
      cases hs
    | ok names =>
      obtain ⟨journal, hfinish⟩ := finish_of_ok hi
      rw [hfinish] at hs
      cases hs
      exact hinstall.withJournal journal

/-- A boot that finds no record in its cell comes to a session whose volume is safe there. -/
theorem safe_of_run {c : Nat} {cell : Cell} {clock : Int} {storage : Storage} {s : Session}
    (hstore : b.store = .memory c) (hcell : storage.cells[c]? = some cell)
    (hempty : cell.record = none) (hout : cell.outcomes = [])
    (hs : (b.run registry clock storage).1 = .ok s) : s.volume.Safe c := by
  have hload : b.store.load storage = .ok none := by
    rw [hstore, Store.load, hcell, Option.bind_some, hempty]
  have hblank : (b.blankVolume clock storage).SavesTo c :=
    ⟨congrArg some hstore, cell, hcell, hout⟩
  obtain ⟨record, message, v, hrecord, hfill, hfinish⟩ := exists_fill_of_run hs
  have hkept : Tree.KeptByTexts (Tree.WellHolds Json.IsLasting) :=
    Tree.keptByTexts_wellHolds Json.isLasting_string
  have htree : v.tree.WellHolds Json.IsLasting :=
    fill_keeps hkept (fun _ => Tree.wellHolds_empty _ clock)
      (fun _ _ _ _ ht => ⟨Tree.wellFormed_ofRecord ht, Tree.holds_ofRecord ht⟩) hfill
  have hsaved : v.Saved c := saved_of_fill hblank (Tree.wellFormed_empty clock)
    (fun origin r h => origin_of_record hload (by rw [← h]; exact hrecord)) hfill
  have hsafe : (v.note .info .boot message).Safe c := Volume.Safe.withJournal ⟨htree, hsaved⟩ _
  exact safe_of_finish hsafe hfinish

/-! ## The next boot -/

/-- What a boot puts where nothing is: directories on the way to the home directory, and the
directory of unit files with those of its commands. -/
def supplies (b : Boot) (registry : Registry) (now : Int) : PathMap :=
  (PathMap.way now (Path.resolve b.config.home "/")).supplied
    (PathMap.equipment now (Path.resolve b.config.bin "/") registry.toList)

/-- What is said about a tree that was found in the store. -/
def loadedMessage : String := "Loaded filesystem from " ++ Origin.storage.text

section Stored

variable {c : Nat} {cell : Cell} {storage : Storage} {t : Tree} {clock : Int}

/-- A boot from a cell with a record starts with that record, whatever the seed is. -/
theorem record_of_stored (hstore : b.store = .memory c) (hcell : storage.cells[c]? = some cell)
    (hrecord : cell.record = some t.record) :
    b.record storage = .ok (some (.storage, t.record)) := by
  rw [Boot.record, hstore, Store.load, hcell, Option.bind_some, hrecord]

/-- To fill a volume from the store is to make the home directory in the tree of the record. -/
theorem fill_of_read {r : Json} {tree : Tree} (hread : Tree.ofRecord v.clock r = .ok tree) :
    b.fill v (some (.storage, r)) =
      match ({ v with tree } : Volume).perform "/" (.makeDirectories b.config.home) with
      | (.error e, v) => (.error (.tree e), v)
      | (.ok _, v) => (.ok loadedMessage, v) := by
  rw [fill, hread]
  rfl

/-- A boot that cannot fill its tree stops there. -/
theorem run_of_fill_error {record : Option (Origin × Json)} {e : BootError}
    (hrecord : b.record storage = .ok record)
    (hfill : b.fill (b.blankVolume clock storage) record = (.error e, v)) :
    b.run registry clock storage = (.error e, { b with stage := .filesystem }, v.storage) := by
  rw [run_of_record registry hrecord, hfill]

/-- What a boot comes to that starts with the record of a tree. -/
structure Restored (b : Boot) (registry : Registry) (clock : Int) (storage : Storage) (t : Tree)
    (s : Session) : Prop where
  /-- The boot comes to the session. -/
  session : (b.run registry clock storage).1 = .ok s
  /-- What was there is there, and what was missing is supplied. -/
  item : s.volume.tree.item? = t.item?.supplied (b.supplies registry clock)
  /-- If nothing is missing, nothing is saved and no unit file is written. -/
  idle : (∀ p, b.supplies registry clock p ≠ none → t.item? p ≠ none) →
    (b.run registry clock storage).2.2 = storage ∧
      (b.run registry clock storage).2.1.lines =
        b.lines ++ ["[OK] " ++ loadedMessage] ++ [b.installedLine []] ++ [b.readyLine]

variable (registry clock) in
/-- A boot from a cell with the record of a tree restores it, unless a file is in the way of the
home directory or of the directory of unit files. -/
theorem run_of_stored (hstore : b.store = .memory c) (hcell : storage.cells[c]? = some cell)
    (hrecord : cell.record = some t.record) (ht : t.WellHolds Json.IsLasting)
    (hnames : ∀ c ∈ registry.toList, '/' ∉ c.name.toList) :
    (∃ e q, (b.run registry clock storage).1 = .error (.tree e) ∧
        (q <+: Path.resolve b.config.home "/" ∨ q <+: Path.resolve b.config.bin "/") ∧
          t.item?.HasFile q) ∨
      ∃ s, b.Restored registry clock storage t s := by
  obtain ⟨t', hread, hwf, hitem⟩ := ht.wellFormed.ofRecord_record ht.holds clock
  have hstart := record_of_stored hstore hcell hrecord
  have hfill := fill_of_read (b := b) (v := b.blankVolume clock storage) hread
  have hmake := Volume.perform_makeDirectories
    (v := { b.blankVolume clock storage with tree := t' }) hwf b.config.home
  rcases hmake with ⟨e, q, hp, hq, hfile⟩ | ⟨v₁, hp, -, hhome⟩
  · rw [hp] at hfill
    have hrun : b.run registry clock storage = _ := run_of_fill_error hstart hfill
    exact Or.inl ⟨e, q, congrArg Prod.fst hrun, Or.inl hq, hitem ▸ hfile⟩
  · rw [hp] at hfill
    have hrefusal : b.store.refusal? = none := by rw [hstore, Store.refusal?]
    have hrun := run_of_fill_ok registry hrefusal hstart hfill
    have hinstall := Volume.install_spec (r := registry) (v := v₁.note .info .boot loadedMessage)
      hhome.wellFormed b.config.bin hnames
    rcases hinstall with ⟨e, q, hi, hq, hfile⟩ | ⟨names, v', hi, -, hbin, hnone⟩
    · rw [finish_of_error (b := b.filled loadedMessage) hi] at hrun
      rw [Volume.tree_note, hhome.item] at hfile
      exact Or.inl ⟨e, q, congrArg Prod.fst hrun, Or.inr hq, hitem ▸ hfile.of_way⟩
    · obtain ⟨journal, hfinish⟩ := finish_of_ok (b := b.filled loadedMessage) hi
      rw [hfinish] at hrun
      have hclock : (v₁.note .info .boot loadedMessage).clock = clock := hhome.clock
      rw [hclock] at hbin hnone
      refine Or.inr ⟨_, congrArg Prod.fst hrun, ?_, fun hfull => ?_⟩
      · have hitem' : v'.tree.item? = _ := hbin.item
        rw [Volume.tree_note, hhome.item, PathMap.supplied_supplied, hitem] at hitem'
        exact hitem'
      · have hsame : v₁ = { b.blankVolume clock storage with tree := t' } :=
          hhome.idle fun p hp => by
            rw [hitem]
            exact hfull p (PathMap.supplied_ne_none (Or.inl hp))
        have hrest : ∀ p,
            PathMap.equipment clock (Path.resolve b.config.bin "/") registry.toList p ≠ none →
              (v₁.note .info .boot loadedMessage).tree.item? p ≠ none := by
          intro p hp
          rw [Volume.tree_note, hsame, hitem]
          exact hfull p (PathMap.supplied_ne_none (Or.inr hp))
        have hlast := hbin.idle hrest
        rw [hrun, hnone hrest, hlast, hsame]
        exact ⟨rfl, rfl⟩

end Stored

/-! ## After a session -/

/-- What a boot comes to that is saved where a session was. -/
structure Resumes (b : Boot) (clock : Int) (storage : Storage) (s s' : Session) : Prop where
  /-- It starts with the record of the tree, whatever the seed is. -/
  origin : b.record storage = .ok (some (.storage, s.volume.tree.record))
  /-- Every node is found as it was left. -/
  kept : ∀ p item, s.volume.tree.item? p = some item → s'.volume.tree.item? p = some item
  /-- What is new are directories on the way to the home directory and to that of unit files, and
  unit files of commands, all of them made now. -/
  added : ∀ p item, s.volume.tree.item? p = none → s'.volume.tree.item? p = some item →
    (p <+: Path.resolve b.config.home "/" ∨ p <+: Path.resolve b.config.bin "/") ∧
        item = ⟨.ofDirectory clock, none⟩ ∨
      ∃ c ∈ builtIns.toList, p = Path.resolve b.config.bin "/" ++ [c.name ++ Command.unitSuffix] ∧
        item = ⟨.ofFile clock, some (.string c.unitSource)⟩
  /-- If none of these is missing, nothing is saved, and no unit file is written. -/
  quiet : (∀ p, p <+: Path.resolve b.config.home "/" ∨ p <+: Path.resolve b.config.bin "/" ∨
      (∃ c ∈ builtIns.toList,
        p = Path.resolve b.config.bin "/" ++ [c.name ++ Command.unitSuffix]) →
      s.volume.tree.item? p ≠ none) →
    s'.volume.tree.item? = s.volume.tree.item? ∧
      (b.run builtIns clock storage).2.2 = storage ∧
        (b.run builtIns clock storage).2.1.lines =
          b.lines ++ ["[OK] " ++ loadedMessage] ++ [b.installedLine []] ++ [b.readyLine]

/-- What a boot supplies are the directories on its two ways and the units of the commands. -/
theorem supplies_eq_some {now : Int} {p : Segments} {item : Item}
    (h : b.supplies registry now p = some item) :
    (p <+: Path.resolve b.config.home "/" ∨ p <+: Path.resolve b.config.bin "/") ∧
        item = ⟨.ofDirectory now, none⟩ ∨
      ∃ c ∈ registry.toList, p = Path.resolve b.config.bin "/" ++ [c.name ++ Command.unitSuffix] ∧
        item = ⟨.ofFile now, some (.string c.unitSource)⟩ := by
  rcases Option.or_eq_some_iff.mp h with hway | ⟨-, hequipment⟩
  · obtain ⟨hp, rfl⟩ := PathMap.way_eq_some hway
    exact Or.inl ⟨Or.inl hp, rfl⟩
  · rcases Option.or_eq_some_iff.mp hequipment with hway | ⟨-, hunit⟩
    · obtain ⟨hp, rfl⟩ := PathMap.way_eq_some hway
      exact Or.inl ⟨Or.inr hp, rfl⟩
    · exact Or.inr (PathMap.units_eq_some hunit)

/-- No built-in command has a slash in its name. -/
theorem name_of_mem_builtIns {c : Command} (h : c ∈ builtIns.toList) : '/' ∉ c.name.toList := by
  rw [toList_builtIns] at h
  exact noSlash_commandsInOrder c h

/-- A volume stays safe in whatever a session comes to. -/
theorem safe_of_comesTo {visited : Visit → Prop} {c : Nat} {s s' : Session} (hs : s.Reached)
    (h : s.ComesTo visited s') (hsafe : s.volume.Safe c) : s'.volume.Safe c :=
  h.volume hs hsafe (fun _ journal hv => hv.withJournal journal)
    (fun _ clock hv => hv.withClock clock) fun _ cwd _ he hv => hv.perform cwd he

/-- Nothing is lost from one session to the next: a boot in memory that found nothing there, any
lines, and then a boot from the same place, with any seed. -/
theorem resumes_of_lines {b b' : Boot} {c : Nat} {cell : Cell} {clock clock' : Int}
    {storage : Storage} {disk : Disk} {s s' s'' : Session} (hstore : b.store = .memory c)
    (hcell : storage.cells[c]? = some cell) (hempty : cell.record = none)
    (hreliable : cell.outcomes = []) (hs : (b.run builtIns clock storage).1 = .ok s)
    (hlines : s.ComesTo (fun _ => True) s') (hstore' : b'.store = .memory c)
    (hs'' : (b'.run builtIns clock' { s'.volume.storage with disk }).1 = .ok s'') :
    b'.Resumes clock' { s'.volume.storage with disk } s' s'' := by
  have hsafe := safe_of_comesTo (.boot hs) hlines (safe_of_run hstore hcell hempty hreliable hs)
  obtain ⟨cell', hcell', hrecord⟩ := hsafe.saved.stored
  have hcells : ({ s'.volume.storage with disk } : Storage).cells[c]? = some cell' := hcell'
  rcases run_of_stored builtIns clock' hstore' hcells hrecord hsafe.tree
      (fun _ => name_of_mem_builtIns) with
    ⟨e, -, herror, -⟩ | ⟨r, hrun, hitem, hidle⟩
  · rw [herror] at hs''
    cases hs''
  · obtain rfl : r = s'' := Except.ok.inj (hrun.symm.trans hs'')
    refine ⟨record_of_stored hstore' hcells hrecord, fun p item hp => ?_, fun p item hp hp' => ?_,
      fun hfull => ?_⟩
    · rw [hitem, PathMap.supplied_of_some hp]
    · rw [hitem, PathMap.supplied_of_none hp] at hp'
      exact supplies_eq_some hp'
    · have hnone : ∀ p, b'.supplies builtIns clock' p ≠ none → s'.volume.tree.item? p ≠ none := by
        intro p hp
        obtain ⟨item, hi⟩ := Option.ne_none_iff_exists'.mp hp
        refine hfull p ?_
        rcases supplies_eq_some hi with ⟨hway, -⟩ | ⟨c, hc, hplace, -⟩
        · exact hway.imp_right Or.inl
        · exact Or.inr (Or.inr ⟨c, hc, hplace⟩)
      rw [hitem]
      exact ⟨PathMap.supplied_of_full hnone, hidle hnone⟩

/-- After the usual boot and a line that writes a file, no file is in the way of the home directory
or of that of unit files. -/
theorem exists_noted :
    ∃ s, usual = .ok s ∧
      ∀ q, q <+: Path.resolve Config.usual.home "/" ∨ q <+: Path.resolve Config.usual.bin "/" →
        ¬ (s.runOn "echo hi > note" .apart).2.session.volume.tree.item?.HasFile q := by
  have hall : (((Path.resolve Config.usual.home "/").inits ++
      (Path.resolve Config.usual.bin "/").inits).all fun q =>
        ((usualSession.runOn "echo hi > note" .apart).2.session.volume.tree.item? q).all
          Item.isDirectory) = true := by
    decide +kernel
  refine ⟨usualSession, usual_eq, fun q hq => ?_⟩
  rintro ⟨item, hi, hfile⟩
  have hmem : q ∈ (Path.resolve Config.usual.home "/").inits ++
      (Path.resolve Config.usual.bin "/").inits := by
    rw [List.mem_append, List.mem_inits, List.mem_inits]
    exact hq
  have hdir := List.all_eq_true.mp hall q hmem
  rw [hi, Option.all_some, hfile] at hdir
  cases hdir

/-- A boot with the usual settings and a seed. -/
def seeded : Boot := start { Config.usual with seed := some (.ofString "seed.json") } (.memory 0)

/-- The tree with the file that was written is found by a boot whose seed is not there. -/
theorem resumes_with_note :
    ∃ s s' : Session, usual = .ok s ∧ seeded.Resumes 1
      { (s.runOn "echo hi > note" .apart).2.session.volume.storage with disk := default }
      (s.runOn "echo hi > note" .apart).2.session s' := by
  obtain ⟨s, hs, hfree⟩ := exists_noted
  have hlines : s.ComesTo (fun _ => True) (s.runOn "echo hi > note" .apart).2.session :=
    .line .start "echo hi > note" .apart fun _ _ => trivial
  have hsafe := safe_of_comesTo (.boot hs) hlines (safe_of_run rfl rfl rfl rfl hs)
  obtain ⟨cell, hcell, hrecord⟩ := hsafe.saved.stored
  have hcell' : ({ (s.runOn "echo hi > note" .apart).2.session.volume.storage with
      disk := default } : Storage).cells[0]? = some cell := hcell
  have hstore : seeded.store = .memory 0 := rfl
  rcases run_of_stored builtIns 1 hstore hcell' hrecord hsafe.tree
      (fun _ => name_of_mem_builtIns) with ⟨e, q, -, hq, hfile⟩ | ⟨s', hrun, -⟩
  · exact absurd hfile (hfree q hq)
  · exact ⟨s, s', hs, resumes_of_lines rfl rfl rfl rfl hs hlines hstore hrun⟩

end Boot

end TreeShell
