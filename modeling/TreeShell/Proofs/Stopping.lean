import TreeShell.Proofs.Reboot

/-!
# Boots that stop

A boot is to come to a session, or to stop with an error that it announces and leave the storage as
it was. It does just if nothing is wrong in a way that it does not look for: the shape of a record,
an infinite time, a file in the way of the directories that it makes, a store that nothing can ever
be saved to. What is looked for is found before anything is made.
-/

namespace TreeShell

/-- Whether what is wrong with a record is not looked for. -/
def RecordError.IsOverlooked : RecordError → Prop
  | .notFields | .timeInfinite => True
  | _ => False

/-- Whether an error is one that a boot announces: the store or the seed cannot be read, or the
record is corrupt. -/
def BootError.IsAnnounced : BootError → Prop
  | .store _ | .seed _ _ | .corrupt _ _ => True
  | .shapeless _ | .tree _ | .save _ => False

/-- A record that cannot be read stops the boot with an announced error unless it is overlooked. -/
theorem Boot.isAnnounced_ofRecordError {origin : Origin} {e : RecordError} :
    (Boot.ofRecordError origin e).IsAnnounced ↔ ¬ e.IsOverlooked := by
  cases e <;> simp [Boot.ofRecordError, BootError.IsAnnounced, RecordError.IsOverlooked]

namespace Tree

/-- An empty tree has nothing below its root. -/
theorem item?_empty_of_ne_nil {now : Int} {p : Segments} (h : p ≠ []) :
    (Tree.empty now).item? p = none := by
  cases p with
  | nil => exact absurd rfl h
  | cons name rest => rfl

end Tree

/-- A file that is put at a place is one more file. -/
theorem PathMap.hasFile_put_iff {m : PathMap} {p q : Segments} {a : Attributes}
    {content : Content} :
    (m.put p ⟨a, some content⟩).HasFile q ↔ q = p ∨ m.HasFile q := by
  rw [HasFile, put]
  split
  · next hq => exact iff_of_true ⟨_, rfl, rfl⟩ (Or.inl hq)
  · next hq => rw [or_iff_right hq, HasFile]

namespace Boot

variable {b : Boot} {registry : Registry} {clock : Int} {s : Storage}

/-- What a boot should do: come to a session, or stop with an error that is announced and leave the
storage as it was. -/
def InOrder (b : Boot) (registry : Registry) (clock : Int) (s : Storage) : Prop :=
  ∀ e, (b.run registry clock s).1 = .error e → e.IsAnnounced ∧ (b.run registry clock s).2.2 = s

/-- The place of the file that greets a new user. -/
def welcomePlace (c : Config) : Segments := Path.resolve c.home "/" ++ ["README.md"]

/-- Whether a file is in the way of the home directory or of the one for unit files. -/
def Blocked (c : Config) (m : PathMap) : Prop :=
  ∃ q, (q <+: Path.resolve c.home "/" ∨ q <+: Path.resolve c.bin "/") ∧ m.HasFile q

/-- What a boot does not look for. -/
inductive Stumbles (b : Boot) (clock : Int) (s : Storage) : Prop
  /-- Something stands where fields should be in the record, or a time is infinite. -/
  | overlooked {origin : Origin} {r : Json} {e : RecordError}
    (hr : b.record s = .ok (some (origin, r))) (hread : Tree.ofRecord clock r = .error e)
    (he : e.IsOverlooked)
  /-- A file of the tree of the record is in the way. -/
  | blocked {origin : Origin} {r : Json} {t : Tree} (hr : b.record s = .ok (some (origin, r)))
    (hread : Tree.ofRecord clock r = .ok t) (h : Blocked b.config t.item?)
  /-- There is no record, and the file that greets a new user is in the way. -/
  | greeted (hr : b.record s = .ok none)
    (h : welcomePlace b.config <+: Path.resolve b.config.bin "/")
  /-- There is a tree, and it can never be saved. -/
  | unsaved {record : Option (Origin × Json)} (hr : b.record s = .ok record)
    (hread : ∀ origin r, record = some (origin, r) → ∃ t, Tree.ofRecord clock r = .ok t)
    (h : b.store.refusal? ≠ none)

/-! ## The usual tree -/

/-- The welcome lies in the home directory. -/
theorem resolve_welcome (c : Config) :
    Path.resolve (Text.withoutEndSlashes c.home ++ "/README.md") "/" = welcomePlace c := by
  have hname : ("/README.md" : String) = "/" ++ "README.md" := by decide
  have hproper : Path.IsProper "README.md" := by decide
  rw [hname, Path.resolve_entry hproper, welcomePlace]

/-- Where there are no files, directories can be made anywhere. -/
theorem perform_makeDirectories_of_no_file {v : Volume} (h : v.tree.WellFormed)
    (hno : ∀ q, ¬ v.tree.item?.HasFile q) (path : String) :
    ∃ v', v.perform "/" (.makeDirectories path) = (.ok (), v') ∧
      v.Supplied (PathMap.way v.clock (Path.resolve path "/")) v' ∧
      ∀ q, ¬ v'.tree.item?.HasFile q := by
  rcases Volume.perform_makeDirectories h path with ⟨_, q, -, -, hf⟩ | ⟨v', hv', -, hmade⟩
  · exact absurd hf (hno q)
  · refine ⟨v', hv', hmade, fun q hf => hno q ?_⟩
    rw [hmade.item] at hf
    exact hf.of_way

/-- The usual tree can always be made, and has one file. -/
theorem performAll_usualTree {v : Volume} (c : Config) (h : v.tree = Tree.empty v.clock) :
    ∃ v', v.performAll (usualTree c) = (.ok (), v') ∧ v'.tree.WellFormed ∧
      ∀ q, v'.tree.item?.HasFile q ↔ q = welcomePlace c := by
  have hempty : ∀ q, ¬ v.tree.item?.HasFile q := by
    rintro q ⟨item, hi, hfile⟩
    rw [h] at hi
    rw [Tree.item?_empty hi] at hfile
    cases hfile
  have hwf : v.tree.WellFormed := h ▸ Tree.wellFormed_empty v.clock
  -- until the greeting is written there is no file that could be in the way
  obtain ⟨v₁, hhome, hmade₁, hno₁⟩ := perform_makeDirectories_of_no_file hwf hempty c.home
  obtain ⟨v₂, htmp, hmade₂, hno₂⟩ :=
    perform_makeDirectories_of_no_file hmade₁.wellFormed hno₁ "/tmp"
  have htmpPlace : Path.resolve "/tmp" "/" = ["tmp"] := by decide
  have hdir : v₂.tree.item?.HasDirectory (Path.resolve c.home "/") := by
    have hdir₁ : v₁.tree.item?.HasDirectory (Path.resolve c.home "/") := by
      rw [hmade₁.item]
      exact PathMap.hasDirectory_supplied_way (hempty _)
    obtain ⟨item, hi, hd⟩ := hdir₁
    exact ⟨item, by rw [hmade₂.item, PathMap.supplied_of_some hi], hd⟩
  have hfree : v₂.tree.item? (welcomePlace c) = none := by
    have hne : welcomePlace c ≠ [] := by simp [welcomePlace]
    have hhomeWay : ¬ welcomePlace c <+: Path.resolve c.home "/" := by
      intro hp
      have hlen := hp.length_le
      rw [welcomePlace, List.length_append, List.length_singleton] at hlen
      omega
    have htmpWay : ¬ welcomePlace c <+: ["tmp"] := by
      intro hp
      have hmem : "README.md" ∈ ["tmp"] := hp.subset (List.mem_append_right _ List.mem_cons_self)
      exact absurd hmem (by decide)
    rw [hmade₂.item, hmade₁.item, PathMap.supplied_supplied, h,
      PathMap.supplied_of_none (Tree.item?_empty_of_ne_nil hne), PathMap.supplied, PathMap.way,
      if_neg hhomeWay, PathMap.way, htmpPlace, if_neg htmpWay]
    rfl
  obtain ⟨v₃, hwrite, hwf₃, -, hput⟩ :=
    Volume.perform_write_free welcome hmade₂.wellFormed (resolve_welcome c) hdir hfree
  refine ⟨v₃, ?_, hwf₃, fun q => ?_⟩
  · simp only [usualTree, Volume.performAll, hhome, htmp, hwrite]
  · rw [hput, ← welcomePlace, PathMap.hasFile_put_iff]
    exact or_iff_left (hno₂ q)

/-! ## The course of a boot -/

/-- What filling a volume comes to: a record that is no tree, a file in the way of the home
directory, or the tree of the record or the usual one, with its files. -/
inductive Filled (b : Boot) (v : Volume) (record : Option (Origin × Json)) :
    Except BootError String × Volume → Prop
  | corrupt {origin : Origin} {r : Json} {e : RecordError} (hr : record = some (origin, r))
    (hread : Tree.ofRecord v.clock r = .error e) :
    Filled b v record (.error (ofRecordError origin e), v)
  | blocked {origin : Origin} {r : Json} {t : Tree} {e : PathError} {q : Segments} {v' : Volume}
    (hr : record = some (origin, r)) (hread : Tree.ofRecord v.clock r = .ok t)
    (hq : q <+: Path.resolve b.config.home "/") (hf : t.item?.HasFile q) :
    Filled b v record (.error (.tree e), v')
  | loaded {origin : Origin} {r : Json} {t : Tree} {message : String} {v' : Volume}
    (hr : record = some (origin, r)) (hread : Tree.ofRecord v.clock r = .ok t)
    (hfree : ∀ q, q <+: Path.resolve b.config.home "/" → ¬ t.item?.HasFile q)
    (hwf : v'.tree.WellFormed) (hfiles : ∀ q, v'.tree.item?.HasFile q ↔ t.item?.HasFile q) :
    Filled b v record (.ok message, v')
  | made {message : String} {v' : Volume} (hr : record = none) (hwf : v'.tree.WellFormed)
    (hfiles : ∀ q, v'.tree.item?.HasFile q ↔ q = welcomePlace b.config) :
    Filled b v record (.ok message, v')

/-- What a boot finds fills the blank tree. -/
theorem filled_fill {v : Volume} (h : v.tree = Tree.empty v.clock)
    (record : Option (Origin × Json)) : b.Filled v record (b.fill v record) := by
  cases record with
  | none =>
    obtain ⟨v', hall, hwf, hfiles⟩ := performAll_usualTree b.config h
    rw [fill, hall]
    exact .made rfl hwf hfiles
  | some found =>
    obtain ⟨origin, r⟩ := found
    rw [fill]
    cases hread : Tree.ofRecord v.clock r with
    | error e => exact .corrupt rfl hread
    | ok t =>
      have hwf : ({ v with tree := t } : Volume).tree.WellFormed := Tree.wellFormed_ofRecord hread
      rcases Volume.perform_makeDirectories hwf b.config.home with
        ⟨e, q, hp, hq, hf⟩ | ⟨v', hp, hfree, hmade⟩
      · dsimp only
        rw [hp]
        exact .blocked rfl hread hq hf
      · have hfiles : ∀ q, v'.tree.item?.HasFile q ↔ t.item?.HasFile q := by
          intro q
          rw [hmade.item, PathMap.hasFile_supplied_way_iff]
        dsimp only
        rw [hp]
        dsimp only
        split
        · exact .loaded rfl hread hfree hmade.wellFormed hfiles
        · refine .loaded rfl hread hfree ?_ fun q => ?_
          · rw [Volume.tree_save]
            exact hmade.wellFormed
          · rw [Volume.tree_save]
            exact hfiles q

/-- A boot that has its tree stops just if a file is in the way of the unit files' directory. -/
theorem finish_spec {v : Volume} (h : v.tree.WellFormed)
    (hnames : ∀ c ∈ registry.toList, '/' ∉ c.name.toList) :
    (∃ e q, (b.finish registry v).1 = .error (.tree e) ∧
        q <+: Path.resolve b.config.bin "/" ∧ v.tree.item?.HasFile q) ∨
      (∃ session, (b.finish registry v).1 = .ok session) ∧
        ∀ q, q <+: Path.resolve b.config.bin "/" → ¬ v.tree.item?.HasFile q := by
  rcases Volume.install_spec h b.config.bin hnames with
    ⟨e, q, hi, hq, hf⟩ | ⟨names, v', hi, hfree, -, -⟩
  · rw [finish_of_error hi]
    exact Or.inl ⟨e, q, rfl, hq, hf⟩
  · obtain ⟨journal, hfinish⟩ := finish_of_ok (b := b) hi
    rw [hfinish]
    exact Or.inr ⟨⟨_, rfl⟩, hfree⟩

/-- An error in finding the record is announced. -/
theorem isAnnounced_of_record {e : BootError} (h : b.record s = .error e) : e.IsAnnounced := by
  unfold Boot.record at h
  split at h
  · cases h
    trivial
  · cases h
  · unfold seedRecord at h
    split at h
    · cases h
    · split at h
      · cases h
        trivial
      · split at h
        · cases h
        · cases h
          trivial
      · split at h
        · cases h
        · cases h
          trivial

/-- A boot with a store that nothing can be saved to stops, whatever its tree is. -/
theorem run_of_refusal {record : Option (Origin × Json)} {message : String} {v : Volume}
    {e : HostError} (hrefusal : b.store.refusal? = some e) (hr : b.record s = .ok record)
    (hfill : b.fill (b.blankVolume clock s) record = (.ok message, v)) :
    (b.run registry clock s).1 = .error (.save e) := by
  rw [run_of_record registry hr, hfill, hrefusal]

/-- What a boot that has its tree comes to. -/
theorem run_of_filled (hnames : ∀ c ∈ registry.toList, '/' ∉ c.name.toList)
    {record : Option (Origin × Json)} {message : String} {v : Volume}
    (hr : b.record s = .ok record)
    (hfill : b.fill (b.blankVolume clock s) record = (.ok message, v)) (hwf : v.tree.WellFormed) :
    (∃ e, b.store.refusal? = some e ∧ (b.run registry clock s).1 = .error (.save e)) ∨
      b.store.refusal? = none ∧
        ((∃ e q, (b.run registry clock s).1 = .error (.tree e) ∧
            q <+: Path.resolve b.config.bin "/" ∧ v.tree.item?.HasFile q) ∨
          (∃ session, (b.run registry clock s).1 = .ok session) ∧
            ∀ q, q <+: Path.resolve b.config.bin "/" → ¬ v.tree.item?.HasFile q) := by
  cases hrefusal : b.store.refusal? with
  | some e => exact Or.inl ⟨e, rfl, run_of_refusal hrefusal hr hfill⟩
  | none =>
    rw [run_of_fill_ok registry hrefusal hr hfill]
    exact Or.inr ⟨rfl,
      finish_spec (b := b.filled message) (v := v.note .info .boot message) hwf hnames⟩

/-! ## What a boot stops for -/

section Stumbling

variable {origin : Origin} {r : Json}

/-- A boot that stops for its storage or seed does not stumble. -/
theorem not_stumbles_of_error {e : BootError} (hr : b.record s = .error e) :
    ¬ b.Stumbles clock s := by
  rintro (⟨hr', -, -⟩ | ⟨hr', -, -⟩ | ⟨hr', -⟩ | ⟨hr', -, -⟩) <;> cases hr.symm.trans hr'

/-- A boot without a record stumbles just if the welcome stands in the way of the commands or the
store takes no save. -/
theorem stumbles_none_iff (hr : b.record s = .ok none) :
    b.Stumbles clock s ↔
      welcomePlace b.config <+: Path.resolve b.config.bin "/" ∨ b.store.refusal? ≠ none := by
  constructor
  · intro h
    cases h with
    | overlooked hr' => cases hr.symm.trans hr'
    | blocked hr' => cases hr.symm.trans hr'
    | greeted _ hway => exact Or.inl hway
    | unsaved _ _ hsave => exact Or.inr hsave
  · rintro (hway | hsave)
    · exact .greeted hr hway
    · exact .unsaved hr (fun origin r heq => by cases heq) hsave

/-- A boot from a record that cannot be read stumbles just if the error is overlooked. -/
theorem stumbles_corrupt_iff {e : RecordError} (hr : b.record s = .ok (some (origin, r)))
    (hread : Tree.ofRecord clock r = .error e) : b.Stumbles clock s ↔ e.IsOverlooked := by
  constructor
  · intro h
    cases h with
    | overlooked hr' hread' he =>
      cases hr.symm.trans hr'
      cases hread.symm.trans hread'
      exact he
    | blocked hr' hread' =>
      cases hr.symm.trans hr'
      cases hread.symm.trans hread'
    | greeted hr' => cases hr.symm.trans hr'
    | unsaved hr' hread' =>
      cases hr.symm.trans hr'
      obtain ⟨t, ht⟩ := hread' origin r rfl
      cases hread.symm.trans ht
  · exact .overlooked hr hread

/-- A boot from a record stumbles just if a file stands in its way or the store takes no save. -/
theorem stumbles_read_iff {t : Tree} (hr : b.record s = .ok (some (origin, r)))
    (hread : Tree.ofRecord clock r = .ok t) :
    b.Stumbles clock s ↔ Blocked b.config t.item? ∨ b.store.refusal? ≠ none := by
  constructor
  · intro h
    cases h with
    | overlooked hr' hread' =>
      cases hr.symm.trans hr'
      cases hread.symm.trans hread'
    | blocked hr' hread' hblocked =>
      cases hr.symm.trans hr'
      cases hread.symm.trans hread'
      exact Or.inl hblocked
    | greeted hr' => cases hr.symm.trans hr'
    | unsaved _ _ hsave => exact Or.inr hsave
  · rintro (hblocked | hsave)
    · exact .blocked hr hread hblocked
    · refine .unsaved hr (fun origin' r' heq => ?_) hsave
      cases heq
      exact ⟨t, hread⟩

end Stumbling

/-- A boot that ends with a session is in order. -/
theorem inOrder_of_session {session : Session}
    (hrun : (b.run registry clock s).1 = .ok session) : b.InOrder registry clock s := by
  intro e he
  cases hrun.symm.trans he

/-- A boot stumbles and stops with an error that it does not announce, or it does not stumble and is
in order. -/
theorem run_spec (b : Boot) (registry : Registry) (clock : Int) (s : Storage)
    (hnames : ∀ c ∈ registry.toList, '/' ∉ c.name.toList) :
    (b.Stumbles clock s ∧ ∃ e, (b.run registry clock s).1 = .error e ∧ ¬ e.IsAnnounced) ∨
      ¬ b.Stumbles clock s ∧ b.InOrder registry clock s := by
  -- the boot takes one way for each way to fill the volume, and each settles both sides at once
  cases hr : b.record s with
  | error e =>
    refine Or.inr ⟨not_stumbles_of_error hr, fun e' he => ?_⟩
    rw [run_of_record_error hr] at he ⊢
    cases he
    exact ⟨isAnnounced_of_record hr, rfl⟩
  | ok record =>
    have hfilled := filled_fill (b := b) (v := b.blankVolume clock s) rfl record
    generalize hfill : b.fill (b.blankVolume clock s) record = result at hfilled
    cases hfilled with
    | @corrupt origin r e hrecord hread =>
      subst hrecord
      have hrun : b.run registry clock s = _ := run_of_fill_error hr hfill
      have hstumbles : b.Stumbles clock s ↔ _ := stumbles_corrupt_iff hr hread
      rw [hstumbles]
      by_cases ho : e.IsOverlooked
      · refine Or.inl ⟨ho, _, congrArg Prod.fst hrun, ?_⟩
        rwa [isAnnounced_ofRecordError, not_not]
      · refine Or.inr ⟨ho, fun e' he => ?_⟩
        rw [hrun] at he ⊢
        cases he
        exact ⟨isAnnounced_ofRecordError.mpr ho, rfl⟩
    | blocked hrecord hread hq hf =>
      subst hrecord
      have hrun : b.run registry clock s = _ := run_of_fill_error hr hfill
      have hstumbles : b.Stumbles clock s ↔ _ := stumbles_read_iff hr hread
      rw [hstumbles]
      exact Or.inl ⟨Or.inl ⟨_, Or.inl hq, hf⟩, _, congrArg Prod.fst hrun, id⟩
    | @loaded origin r t message v hrecord hread hfree hwf hfiles =>
      subst hrecord
      have hstumbles : b.Stumbles clock s ↔ _ := stumbles_read_iff hr hread
      rw [hstumbles]
      rcases run_of_filled hnames hr hfill hwf with
        ⟨e, hsave, hrun⟩ | ⟨hsave, ⟨e, q, hrun, hq, hf⟩ | ⟨⟨session, hrun⟩, hbin⟩⟩
      · exact Or.inl ⟨Or.inr (hsave ▸ Option.some_ne_none e), _, hrun, id⟩
      · exact Or.inl ⟨Or.inl ⟨q, Or.inr hq, (hfiles q).mp hf⟩, _, hrun, id⟩
      · refine Or.inr ⟨?_, inOrder_of_session hrun⟩
        rintro (⟨q, hq | hq, hf⟩ | hno)
        · exact hfree q hq hf
        · exact hbin q hq ((hfiles q).mpr hf)
        · exact hno hsave
    | @made message v hrecord hwf hfiles =>
      subst hrecord
      rw [stumbles_none_iff hr]
      rcases run_of_filled hnames hr hfill hwf with
        ⟨e, hsave, hrun⟩ | ⟨hsave, ⟨e, q, hrun, hq, hf⟩ | ⟨⟨session, hrun⟩, hbin⟩⟩
      · exact Or.inl ⟨Or.inr (hsave ▸ Option.some_ne_none e), _, hrun, id⟩
      · exact Or.inl ⟨Or.inl ((hfiles q).mp hf ▸ hq), _, hrun, id⟩
      · refine Or.inr ⟨?_, inOrder_of_session hrun⟩
        rintro (hway | hno)
        · exact hbin _ hway ((hfiles _).mpr rfl)
        · exact hno hsave

/-- A boot that stumbles is not in order. -/
theorem Stumbles.not_inOrder (h : b.Stumbles clock s) : ¬ b.InOrder builtIns clock s := by
  rcases run_spec b builtIns clock s fun _ => name_of_mem_builtIns with
    ⟨-, e, hrun, he⟩ | ⟨hno, -⟩
  · exact fun horder => he (horder e hrun).1
  · exact absurd h hno

/-- A boot is in order just if it does not stumble; if it does, it stops with an error that it does
not announce. An announced error therefore always leaves the storage as it was. -/
theorem inOrder_iff_not_stumbles (b : Boot) (clock : Int) (s : Storage) :
    (b.InOrder builtIns clock s ↔ ¬ b.Stumbles clock s) ∧
      (b.Stumbles clock s → ∃ e, (b.run builtIns clock s).1 = .error e ∧ ¬ e.IsAnnounced) := by
  rcases run_spec b builtIns clock s fun _ => name_of_mem_builtIns with
    ⟨h, e, hrun, he⟩ | ⟨h, horder⟩
  · exact ⟨iff_of_false h.not_inOrder (not_not.mpr h), fun _ => ⟨e, hrun, he⟩⟩
  · exact ⟨iff_of_true horder h, fun hs => absurd hs h⟩

/-- Storage with one cell of memory, which has a record of a directory with one entry. -/
def storing (name : String) (entry : Json) : Storage :=
  ⟨default, [⟨some (.object [("type", .string "directory"), ("children", .object [(name, entry)])]),
    0, []⟩]⟩

/-- A boot from that cell, with its unit files in some directory. -/
def withBin (bin : String) : Boot := start { Config.usual with bin } (.memory 0)

/-- A boot is not in order if a number stands where a node should be; nor if a file is in the way of
the unit files' directory, for then the home directory has been made and saved before it stops. -/
theorem stumbles_over_entries :
    ¬ (withBin "/bin").InOrder builtIns 0 (storing "a" (.int 1)) ∧
      ¬ (withBin "/usr/bin").InOrder builtIns 0 (storing "usr" (.object [("type", .string "file")])) ∧
      (withBin "/usr/bin").store.load ((withBin "/usr/bin").run builtIns 0
        (storing "usr" (.object [("type", .string "file")]))).2.2 ≠
          (withBin "/usr/bin").store.load (storing "usr" (.object [("type", .string "file")])) := by
  have hnumber : (withBin "/bin").Stumbles 0 (storing "a" (.int 1)) :=
    .overlooked (e := .notFields) rfl rfl trivial
  have hfile : (withBin "/usr/bin").Stumbles 0
      (storing "usr" (.object [("type", .string "file")])) := by
    refine .blocked rfl rfl ⟨["usr"], Or.inr (by decide), _, rfl, rfl⟩
  refine ⟨hnumber.not_inOrder, hfile.not_inOrder, fun h => ?_⟩
  have hroot := congrArg (fun r => ((r.toOption.bind id).bind (Json.field? "metadata")).isSome) h
  revert hroot
  decide +kernel

end Boot

end TreeShell
