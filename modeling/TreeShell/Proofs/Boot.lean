import TreeShell.Boot
import TreeShell.Proofs.OrderedMap
import TreeShell.Proofs.Tree.Listing
import TreeShell.Proofs.Tree.Texts
import TreeShell.Proofs.Volume.Installing

/-!
# What a boot ends with

A boot plants a tree and makes edits of it that write nothing but texts: one tree it is in any case,
and without a record all its files hold texts.
-/

namespace TreeShell

/-- A property of trees that is kept by every edit that writes nothing but texts. -/
def Tree.KeptByTexts (P : Tree → Prop) : Prop :=
  ∀ (now : Int) (e : Edit) (t : Tree), e.WritesText → P t → P (e.perform now "/" t).2

namespace Tree

theorem keptByTexts_wellFormed : KeptByTexts WellFormed :=
  fun now e _ _ h => wellFormed_perform now "/" h e

/-- A well-formed tree whose files hold things of a kind that takes in texts stays one when texts
are written. -/
theorem keptByTexts_wellHolds {kind : Content → Prop} (htext : ∀ text, kind (.string text)) :
    KeptByTexts (WellHolds kind) :=
  fun now _ _ he h => h.perform htext now "/" (he.known _)

end Tree

namespace Volume

/-- A property of volumes that is kept by every edit that writes nothing but texts. -/
def KeptByTexts (P : Volume → Prop) : Prop :=
  ∀ (v : Volume) (e : Edit), e.WritesText → P v → P (v.perform "/" e).2

/-- What edits that write texts keep of a tree, they keep of the tree of a volume. -/
theorem keptByTexts_tree {P : Tree → Prop} (hP : Tree.KeptByTexts P) :
    KeptByTexts fun v => P v.tree := by
  intro v e he h
  rw [tree_perform]
  exact hP v.clock e v.tree he h

variable {P : Volume → Prop} {v : Volume}

/-- What each edit keeps, edits one after another keep. -/
theorem performAll_keeps (hP : KeptByTexts P) (h : P v) {es : List Edit}
    (hes : ∀ e ∈ es, e.WritesText) : P (v.performAll es).2 := by
  induction es generalizing v with
  | nil => exact h
  | cons e rest ih =>
    have hstep := hP v e (hes e List.mem_cons_self) h
    rw [performAll]
    split
    · next hv =>
      rw [hv] at hstep
      exact ih hstep fun e he => hes e (List.mem_cons_of_mem _ he)
    · next hv =>
      rw [hv] at hstep
      exact hstep

/-- Unit files are texts, so their installation keeps what edits that write texts keep. -/
theorem installAll_keeps (hP : KeptByTexts P) (bin : String) (l : List Command) (h : P v) :
    P (installAll bin l v).2 := by
  induction l generalizing v with
  | nil => exact h
  | cons c rest ih =>
    have hstep := hP v (.write (Command.unitPath c.name bin) (.string c.unitSource) false)
      ⟨_, rfl⟩ h
    rw [installAll]
    split
    · exact ih h
    · split
      · next hv =>
        rw [hv] at hstep
        exact hstep
      · next hv =>
        rw [hv] at hstep
        have hrest := ih hstep
        split
        · next hw =>
          rw [hw] at hrest
          exact hrest
        · next hw =>
          rw [hw] at hrest
          exact hrest

/-- The installation of a registry keeps what edits that write texts keep. -/
theorem install_keeps (hP : KeptByTexts P) (r : Registry) (bin : String) (h : P v) :
    P (v.install r bin).2 := by
  have hstep := hP v (.makeDirectories bin) trivial h
  rw [install]
  split
  · next hv =>
    rw [hv] at hstep
    exact hstep
  · next hv =>
    rw [hv] at hstep
    exact installAll_keeps hP bin r.toList hstep

end Volume

/-- A variable that is set has its value, if that is not empty or stands for nothing else then. -/
theorem Environment.nonEmptyOr_of_get? {env : Environment} {name default value : String}
    (h : env.get? name = some value) (hempty : value = "" → default = "") :
    env.nonEmptyOr name default = value := by
  rw [nonEmptyOr, h]
  split
  · next hnone => cases hnone
  · next he =>
    rw [Option.some.inj he]
    exact hempty (Option.some.inj he)
  · next hvalue => exact (Option.some.inj hvalue).symm

namespace Boot

variable {P : Tree → Prop}

/-- A boot that has its tree. -/
def filled (b : Boot) (message : String) : Boot :=
  { b with stage := .filesystem, lines := b.lines ++ ["[OK] " ++ message] }

/-- A boot that finds no record it can read ends there. -/
theorem run_of_record_error {b : Boot} {registry : Registry} {clock : Int} {storage : Storage}
    {e : BootError} (hrecord : b.record storage = .error e) :
    b.run registry clock storage = (.error e, { b with stage := .filesystem }, storage) := by
  have hrecord' : ({ b with stage := .filesystem } : Boot).record storage = .error e := hrecord
  rw [run]
  dsimp only
  rw [hrecord']

/-- A boot that knows its record fills its volume, asks whether that can be saved, and finishes. -/
theorem run_of_record {b : Boot} (registry : Registry) {clock : Int} {storage : Storage}
    {record : Option (Origin × Json)} (hrecord : b.record storage = .ok record) :
    b.run registry clock storage =
      match b.fill (b.blankVolume clock storage) record with
      | (.error e, v) => (.error e, { b with stage := .filesystem }, v.storage)
      | (.ok message, v) =>
        match b.store.refusal? with
        | some e => (.error (.save e), { b with stage := .filesystem }, v.storage)
        | none => (b.filled message).finish registry (v.note .info .boot message) := by
  have hrecord' : ({ b with stage := .filesystem } : Boot).record storage = .ok record := hrecord
  rw [run]
  dsimp only
  rw [hrecord']
  rfl

/-- A boot whose tree was filled goes on to install the commands. -/
theorem run_of_fill_ok {b : Boot} (registry : Registry) {clock : Int} {storage : Storage}
    {record : Option (Origin × Json)} {message : String} {v : Volume}
    (hrefusal : b.store.refusal? = none) (hrecord : b.record storage = .ok record)
    (hfill : b.fill (b.blankVolume clock storage) record = (.ok message, v)) :
    b.run registry clock storage =
      (b.filled message).finish registry (v.note .info .boot message) := by
  rw [run_of_record registry hrecord, hfill, hrefusal]

/-- A boot that comes to a session has found its record, or none, has filled its volume, and has
finished with that. -/
theorem exists_fill_of_run {b : Boot} {registry : Registry} {clock : Int} {storage : Storage}
    {s : Session} (hs : (b.run registry clock storage).1 = .ok s) :
    ∃ record message v, b.record storage = .ok record ∧
      b.fill (b.blankVolume clock storage) record = (.ok message, v) ∧
        ((b.filled message).finish registry (v.note .info .boot message)).1 = .ok s := by
  cases hrecord : b.record storage with
  | error e =>
    rw [run_of_record_error hrecord] at hs
    cases hs
  | ok record =>
    rw [run_of_record registry hrecord] at hs
    split at hs
    · cases hs
    · next message v hfill =>
      split at hs
      · cases hs
      · exact ⟨record, message, v, rfl, hfill, hs⟩

/-- What a boot is with a tree that has a property: so has the tree that the boot ends with. -/
theorem finish_keeps (hP : Tree.KeptByTexts P) {b : Boot} {registry : Registry} {v : Volume}
    {s : Session} (h : P v.tree) (hs : (b.finish registry v).1 = .ok s) :
    ∃ v' : Volume, s = b.session registry v' ∧ P v'.tree := by
  have hinstall := Volume.install_keeps (Volume.keptByTexts_tree hP) registry b.config.bin h
  unfold finish at hs
  dsimp only at hs
  split at hs
  · cases hs
  · next hv =>
    rw [hv] at hinstall
    cases hs
    exact ⟨_, rfl, hinstall⟩

/-- The files of the usual tree are texts. -/
theorem writesText_usualTree (c : Config) : ∀ e ∈ usualTree c, e.WritesText := by
  simp [usualTree, Edit.WritesText]

/-- A tree that was filled has what the blank tree and every record that is read have. -/
theorem fill_keeps (hP : Tree.KeptByTexts P) {b : Boot} {v v' : Volume} {message : String}
    {record : Option (Origin × Json)} (hnone : record = none → P v.tree)
    (hsome : ∀ origin r t, record = some (origin, r) → Tree.ofRecord v.clock r = .ok t → P t)
    (h : b.fill v record = (.ok message, v')) : P v'.tree := by
  unfold fill at h
  split at h
  · have hall := Volume.performAll_keeps (Volume.keptByTexts_tree hP) (hnone rfl)
      (writesText_usualTree b.config)
    split at h
    · next hv =>
      rw [hv] at hall
      cases h
      exact hall
    · cases h
  · split at h
    · cases h
    · next origin r _ t ht =>
      have hmake := Volume.keptByTexts_tree hP { v with tree := t }
        (.makeDirectories b.config.home) trivial (hsome origin r t rfl ht)
      split at h
      · cases h
      · next hv =>
        rw [hv] at hmake
        cases h
        split
        · exact hmake
        · rw [Volume.tree_save]
          exact hmake

/-- The session that a boot ends with has it too. -/
theorem run_keeps (hP : Tree.KeptByTexts P) {b : Boot} {registry : Registry} {clock : Int}
    {storage : Storage} {s : Session}
    (hnone : b.record storage = .ok none → P (Tree.empty clock))
    (hsome : ∀ origin r t, b.record storage = .ok (some (origin, r)) →
      Tree.ofRecord clock r = .ok t → P t)
    (hs : (b.run registry clock storage).1 = .ok s) :
    ∃ v : Volume, s = b.session registry v ∧ P v.tree := by
  obtain ⟨record, message, v, hr, hfill, hfinish⟩ := exists_fill_of_run hs
  have hfilled : P v.tree := fill_keeps hP (fun h => hnone (by rw [← h]; exact hr))
    (fun origin r t h ht => hsome origin r t (by rw [← h]; exact hr) ht) hfill
  obtain ⟨v', hs', hv'⟩ := finish_keeps hP (v := v.note .info .boot message) hfilled hfinish
  exact ⟨v', hs', hv'⟩

/-- A boot ends with a session on one tree. -/
theorem wellFormed_of_run {b : Boot} {registry : Registry} {clock : Int} {storage : Storage}
    {s : Session} (hs : (b.run registry clock storage).1 = .ok s) :
    ∃ v : Volume, s = b.session registry v ∧ v.tree.WellFormed :=
  run_keeps Tree.keptByTexts_wellFormed (fun _ => Tree.wellFormed_empty _)
    (fun _ _ _ _ ht => Tree.wellFormed_ofRecord ht) hs

/-- A session starts with the usual aliases. -/
theorem aliases_of_run {b : Boot} {registry : Registry} {clock : Int} {storage : Storage}
    {s : Session} (hs : (b.run registry clock storage).1 = .ok s) : s.aliases = usualAliases := by
  obtain ⟨v, rfl, -⟩ := wellFormed_of_run hs
  rfl

/-- A session starts with the variables of its settings. -/
theorem get?_of_run {b : Boot} {registry : Registry} {clock : Int} {storage : Storage}
    {s : Session} (hs : (b.run registry clock storage).1 = .ok s) {name value : String}
    (h : (name, value) ∈ b.config.startVariables) : s.env.get? name = some value := by
  obtain ⟨v, rfl, -⟩ := wellFormed_of_run hs
  have hnodup : (b.config.startVariables.map Prod.fst).Nodup := by
    simp [Config.startVariables]
  have henv : (b.session registry v).env = ⟨OrderedMap.ofList b.config.startVariables⟩ := rfl
  rw [henv, Environment.get?]
  dsimp only
  exact OrderedMap.get?_ofList_of_mem hnodup h

/-- A session starts with the commands that the boot was given. -/
theorem registry_of_run {b : Boot} {registry : Registry} {clock : Int} {storage : Storage}
    {s : Session} (hs : (b.run registry clock storage).1 = .ok s) : s.registry = registry := by
  obtain ⟨v, rfl, -⟩ := wellFormed_of_run hs
  rfl

/-! ## The built-in commands -/

/-- The names of the built-in commands, in order. -/
def commandNames : List String :=
  ["alias", "cat", "cd", "clear", "cp", "dmesg", "echo", "env", "export", "grep", "help",
    "history", "ls", "mkdir", "mv", "pwd", "rm", "stat", "touch", "unalias", "wc", "whoami"]

theorem names_builtIns : builtIns.names = commandNames :=
  Text.sorted_eq (by decide +kernel) (by decide +kernel)

/-- The built-in commands, in the order of their names. -/
def commandsInOrder : List Command := commandNames.filterMap builtIns.get?

/-- The commands that every session has, in the order of their names. -/
theorem toList_builtIns : builtIns.toList = commandsInOrder := by
  rw [Registry.toList, names_builtIns, commandsInOrder]

theorem nodup_commandsInOrder : (commandsInOrder.map Command.name).Nodup := by
  decide +kernel

theorem noSlash_commandsInOrder : ∀ c ∈ commandsInOrder, '/' ∉ c.name.toList := by
  decide +kernel

/-! ## Boots that are evaluated

To evaluate a boot is slow, since it resolves the path of each unit file twice. A boot that makes
room for the unit files comes to a session that is evaluated without these paths.
-/

theorem exists_of_any {ε α : Type} {x : Except ε α} {P : α → Bool}
    (h : x.toOption.any P = true) : ∃ a, x = .ok a ∧ P a = true := by
  cases x with
  | ok a => exact ⟨a, rfl, h⟩
  | error e => cases h

section Room

variable (b : Boot) (clock : Int) (storage : Storage) (record : Option (Origin × Json))
  (message : String) (d : Nat)

/-- What it comes to when a boot that has its tree makes the directory for unit files. -/
def room : Except PathError Unit × Volume :=
  ((b.fill (b.blankVolume clock storage) record).2.note .info .boot message).perform "/"
    (.makeDirectories b.config.bin)

/-- Whether a boot has its tree, by what it says, and then makes a directory, by its number, that
has none of the unit files. -/
def MakesRoom : Prop :=
  (b.fill (b.blankVolume clock storage) record).1.toOption.any (· == message) = true ∧
    (b.room clock storage record message).1 = .ok () ∧
      (b.room clock storage record message).2.tree.find? (Path.resolve b.config.bin "/") = some d ∧
        ((b.room clock storage record message).2.tree.itemOf d).any Item.isDirectory = true ∧
          ∀ c ∈ commandsInOrder, (b.room clock storage record message).2.tree.child? d
            (c.name ++ Command.unitSuffix) = none

instance : Decidable (b.MakesRoom clock storage record message d) :=
  inferInstanceAs (Decidable (_ ∧ _))

/-- The session of a boot that makes all unit files in the directory with a number. -/
def roomySession : Session :=
  let v := commandsInOrder.foldl (.withUnit d) (b.room clock storage record message).2
  b.session builtIns ((v.note .info .boot ("Installed " ++
      toString (commandsInOrder.map Command.name).length ++ " command units in " ++
        b.config.bin)).note .info .boot
    ("Shell ready for " ++ b.config.user ++ "@" ++ b.config.hostname))

variable {b clock storage record message d}

theorem MakesRoom.fill_eq (h : b.MakesRoom clock storage record message d) :
    b.fill (b.blankVolume clock storage) record =
      (.ok message, (b.fill (b.blankVolume clock storage) record).2) := by
  obtain ⟨said, hsaid, heq⟩ := exists_of_any h.1
  exact Prod.ext (by rw [hsaid, eq_of_beq heq]) rfl

theorem MakesRoom.roomFor (h : b.MakesRoom clock storage record message d) :
    (b.room clock storage record message).2.RoomFor (Path.resolve b.config.bin "/") d
      commandsInOrder := by
  have hfilled : (b.fill (b.blankVolume clock storage) record).2.tree.WellFormed :=
    fill_keeps Tree.keptByTexts_wellFormed (fun _ => Tree.wellFormed_empty clock)
      (fun _ _ _ _ ht => Tree.wellFormed_ofRecord ht) h.fill_eq
  obtain ⟨-, -, hfound, hdirectory, hfree⟩ := h
  obtain ⟨item, hitem⟩ := (Option.any_eq_true _ _).mp hdirectory
  exact {
    wellFormed := Volume.keptByTexts_tree Tree.keptByTexts_wellFormed _
      (.makeDirectories b.config.bin) trivial hfilled
    directoryAt := ⟨hfound, Tree.exists_directory_iff.mpr ⟨item, hitem⟩⟩
    apart := nodup_commandsInOrder
    noSlash := noSlash_commandsInOrder
    free := hfree }

/-- A boot that makes room for the unit files comes to a session with all of them. -/
theorem run_of_makesRoom (hrefusal : b.store.refusal? = none)
    (hrecord : b.record storage = .ok record)
    (h : b.MakesRoom clock storage record message d) :
    (b.run builtIns clock storage).1 =
      .ok (b.roomySession clock storage record message d) := by
  have hmade : ((b.fill (b.blankVolume clock storage) record).2.note .info .boot message).perform
      "/" (.makeDirectories b.config.bin) = (.ok (), (b.room clock storage record message).2) :=
    Prod.ext h.2.1 rfl
  have hinstall : ((b.fill (b.blankVolume clock storage) record).2.note .info .boot message).install
      builtIns b.config.bin = (.ok (commandsInOrder.map Command.name),
        commandsInOrder.foldl (.withUnit d) (b.room clock storage record message).2) := by
    rw [Volume.install, hmade, toList_builtIns]
    exact h.roomFor.installAll_eq
  rw [run_of_fill_ok builtIns hrefusal hrecord h.fill_eq, finish, filled]
  dsimp only
  rw [hinstall]
  rfl

end Room

/-- What a boot with the usual settings comes to, in memory where nothing is saved. -/
def usual : Except BootError Session :=
  ((start Config.usual (.memory 0)).run builtIns 0 ⟨default, [⟨none, 0, []⟩]⟩).1

/-- The session that the usual boot comes to. -/
def usualSession : Session :=
  (start Config.usual (.memory 0)).roomySession 0 ⟨default, [⟨none, 0, []⟩]⟩ none
    "Created default filesystem" 6

theorem usual_eq : usual = .ok usualSession :=
  run_of_makesRoom rfl rfl (by decide +kernel)

/-- The usual boot comes to a session. -/
theorem exists_usual : ∃ s, usual = .ok s :=
  ⟨usualSession, usual_eq⟩

end Boot

end TreeShell
