import TreeShell.Proofs.Path
import TreeShell.Proofs.Session.Runs

/-!
# Staying at home

A variable of a session is changed only by a stage that sets it: one that runs `export` with a word
for it or, for the working directory, one that runs `cd`. The latter never leaves the home
directory; so it is not left as long as no stage sets the working directory or the home directory in
the former way.
-/

namespace TreeShell

open TreeShell.Path

/-! ## Who sets a variable -/

/-- The working directory is changed to a directory that allows it, or nothing is changed. -/
theorem Session.changeDirectory_cases (s : Session) (path : String) :
    (s.changeDirectory path).2 = s ∨ ∃ target, s.directoryAt path = .ok target ∧
      (s.changeDirectory path).2 = { s with env := ⟨s.env.vars.set "PWD" target⟩ } := by
  unfold changeDirectory
  split
  · exact Or.inl rfl
  · next target ht => exact Or.inr ⟨target, ht, rfl⟩

namespace Effect

/-- Whether an effect sets a variable in another way than by a change of the working directory. -/
def Assigns (name : String) : Effect → Prop
  | .assign name' _ => name' = name
  | _ => False

/-- Whether an effect sets a variable. -/
def Sets (name : String) : Effect → Prop
  | .enter _ => name = "PWD"
  | e => e.Assigns name

/-- Only `cd` and `export` change the variables at all. -/
theorem env_apply {e : Effect} (henter : ∀ path, e ≠ .enter path)
    (hassign : ∀ name value, e ≠ .assign name value) (j : Job) :
    (e.apply j).session.env = j.session.env := by
  cases e with
  | copy cwd source path =>
    rw [apply]
    split
    · rfl
    · rfl
  | enter path => exact absurd rfl (henter path)
  | assign name value => exact absurd rfl (hassign name value)
  | _ => rfl

/-- Only what sets a variable changes its value. -/
theorem get?_apply {e : Effect} {name : String} (h : ¬ e.Sets name) (j : Job) :
    (e.apply j).session.env.get? name = j.session.env.get? name := by
  cases e with
  | enter path =>
    have hne : name ≠ "PWD" := h
    rw [apply, Job.session_mapSession]
    rcases j.session.changeDirectory_cases path with hs | ⟨target, -, hs⟩
    · rw [hs]
    · rw [hs]
      exact OrderedMap.get?_set_of_ne hne _ _
  | assign name' value =>
    have hne : name ≠ name' := fun he => h he.symm
    rw [apply, Job.session_mapSession, Environment.set?]
    split
    · exact OrderedMap.get?_set_of_ne hne _ _
    · rfl
  | _ => rw [env_apply (fun _ => Effect.noConfusion) (fun _ _ => Effect.noConfusion)]

end Effect

namespace Visit

/-- The stage runs a program, with some words behind the name of its command. -/
def Executes (v : Visit) (p : Program) (words : List String) : Prop :=
  ∃ stage w name c,
    Stage.resolve v.command v.defaults v.job.session.cwd v.job.wiring = (.ok stage, w) ∧
      stage.name = some name ∧
        v.job.session.registry.load w.volume.tree name v.job.session.bin = .ok c ∧
          c.program = p ∧ stage.arguments = words

/-- The stage runs `export` with a word that sets a variable. -/
def Exports (v : Visit) (name : String) : Prop :=
  ∃ words word value, v.Executes .export words ∧ word ∈ words ∧
    Text.assignment word = (name, some value)

/-- The stage sets a variable: by `export`, or by `cd` if it is the working directory. -/
def Sets (v : Visit) (name : String) : Prop :=
  (name = "PWD" ∧ ∃ words, v.Executes .cd words) ∨ v.Exports name

variable {v : Visit} {name : String} {e : Effect}

/-- A stage that may assign a variable exports it. -/
theorem exports_of_mayDo (h : v.MayDo e) (hs : e.Assigns name) : v.Exports name := by
  cases h with
  | opens h => cases e <;> first | exact h.elim | exact hs.elim
  | reports h => cases e <;> first | exact h.elim | exact hs.elim
  | @command stage w command c hready hname hload hc h =>
    cases e with
    | assign name' value =>
      obtain ⟨hp, word, hword, hassign⟩ := h
      obtain rfl : name' = name := hs
      exact ⟨stage.arguments, word, value,
        ⟨stage, w, command, c, hready, hname, hload, hp, rfl⟩, hword, hassign⟩
    | _ => exact hs.elim

/-- A stage that may set a variable does so by one of the two commands. -/
theorem sets_of_mayDo (h : v.MayDo e) (hs : e.Sets name) : v.Sets name := by
  cases e with
  | enter path =>
    cases h with
    | opens h => exact h.elim
    | reports h => exact h.elim
    | @command stage w command c hready hname hload hc h =>
      exact Or.inl ⟨hs, stage.arguments, stage, w, command, c, hready, hname, hload, h, rfl⟩
  | _ => exact Or.inr (exports_of_mayDo h hs)

/-- A stage changes a variable only if it sets it. -/
theorem sets_of_changed (hv : v.job.session.Sound)
    (h : v.run.2.session.env.get? name ≠ v.job.session.env.get? name) : v.Sets name := by
  by_contra hno
  have hsteps := v.steps_run hv
  refine h (hsteps.keeps (P := fun j => j.session.env.get? name = v.job.session.env.get? name) rfl
    fun e j he hj => ?_)
  rw [Effect.get?_apply (fun hs => hno (sets_of_mayDo he hs)), hj]

/-- A stage without words behind the name of its command sets no variable by `export`. -/
theorem not_exports_of_bare {parts : Parts} (hparts : Parts.ofStage v.command = .ok parts)
    (hbare : parts.arguments = []) (name : String) : ¬ v.Exports name := by
  rintro ⟨words, word, value, ⟨stage, w, command, c, hready, -, -, -, rfl⟩, hword, -⟩
  have harguments : stage.arguments = parts.arguments := by
    rw [Stage.resolve, hparts] at hready
    dsimp only at hready
    split at hready
    · cases hready
    · cases hready
      rfl
  rw [harguments, hbare] at hword
  cases hword

end Visit

/-- Nothing between stages assigns a variable. -/
theorem Effect.Between.not_assigns {e : Effect} (h : e.Between) (name : String) :
    ¬ e.Assigns name := by
  cases e <;> first | exact h.elim | exact fun hs => hs.elim

/-- Nothing between stages sets one. -/
theorem Effect.Between.not_sets {e : Effect} (h : e.Between) (name : String) : ¬ e.Sets name := by
  cases e <;> first | exact h.elim | exact fun hs => hs.elim

/-- An effect writes nothing but texts and what files hold, and assigns neither the working
directory nor the home directory. -/
structure Effect.LeavesHome (e : Effect) : Prop where
  plain : e.Plain
  pwd : ¬ e.Assigns "PWD"
  home : ¬ e.Assigns "HOME"

/-- To remember a line leaves the environment as it is. -/
theorem Session.env_remember (s : Session) (line : String) : (s.remember line).env = s.env := by
  obtain ⟨history, hs⟩ := s.exists_remember line
  rw [hs]

/-- A line changes a variable only if one of its stages sets it. -/
theorem Session.sets_of_changed {s : Session} (hs : s.Sound) {name line : String} {d : Display}
    (h : (s.runOn line d).2.session.env.get? name ≠ s.env.get? name) :
    ∃ v ∈ s.visits line d, v.Sets name := by
  by_contra hno
  have hvisits : ∀ v ∈ s.visits line d, ¬ v.Sets name := fun v hv hset => hno ⟨v, hv, hset⟩
  have hsteps : Steps (fun e => e.Plain ∧ ¬ e.Sets name) (s.firstJob line d) (s.runOn line d).2 :=
    (steps_runOn (fun e he => ⟨he.plain, he.not_sets name⟩) (fun e he => he.1) hs line d
      fun v hv e he => ⟨he.plain, fun hset => hvisits v hv (Visit.sets_of_mayDo he hset)⟩).1
  have hfirst : (s.firstJob line d).session.env.get? name = s.env.get? name := by
    rw [firstJob, env_remember]
  refine h (hsteps.keeps (P := fun j => j.session.env.get? name = s.env.get? name) hfirst
    fun e j he hj => ?_)
  rw [Effect.get?_apply he.2, hj]

/-! ## The home directory -/

/-- A variable that holds a written path has that path as its value. -/
theorem Environment.nonEmptyOr_format {env : Environment} {name default : String} {p : Segments}
    (h : env.get? name = some (format p)) : env.nonEmptyOr name default = format p :=
  nonEmptyOr_of_get? h fun he => absurd he (format_ne_empty p)

namespace Session

/-- The working directory of a session is a place or below it. -/
def IsWithin (place : Segments) (s : Session) : Prop :=
  ∃ pwd, s.env.get? "PWD" = some pwd ∧ place <+: resolve pwd "/"

/-- A session has a place as its home directory, and is there or below. -/
structure AtHome (place : Segments) (s : Session) : Prop where
  proper : ∀ x ∈ place, IsProper x
  home : s.env.get? "HOME" = some (format place)
  inside : ∃ q, s.env.get? "PWD" = some (format q) ∧ (∀ x ∈ q, IsProper x) ∧ place <+: q

variable {place : Segments} {s : Session}

/-- A session at home is within its home. -/
theorem AtHome.isWithin (h : s.AtHome place) : s.IsWithin place := by
  obtain ⟨q, hq, hproper, hle⟩ := h.inside
  refine ⟨format q, hq, ?_⟩
  rw [resolve_format hproper]
  exact hle

/-- Only the home and the working directory tell whether a session is at home. -/
theorem AtHome.of_env {s' : Session} (h : s.AtHome place)
    (hhome : s'.env.get? "HOME" = s.env.get? "HOME") (hpwd : s'.env.get? "PWD" = s.env.get? "PWD") :
    s'.AtHome place := by
  refine ⟨h.proper, hhome.trans h.home, ?_⟩
  rw [hpwd]
  exact h.inside

/-- The path of a place that counts as inside the home directory is that of a place there or
below. -/
theorem prefix_of_insideHome {q : Segments} (hp : ∀ x ∈ place, IsProper x)
    (hq : ∀ x ∈ q, IsProper x) (hhome : s.home = format place)
    (h : s.insideHome (format q) = true) : place <+: q := by
  by_cases hroot : place = []
  · rw [hroot]
    exact List.nil_prefix
  · have htrim : Text.withoutEndSlashes s.home = format place := by
      rw [hhome, withoutEndSlashes_format hp hroot]
    rw [insideHome, htrim, if_neg (format_ne_empty place), Bool.or_eq_true, beq_iff_eq] at h
    rcases h with h | h
    · rw [format_injective hq hp h]
    · exact prefix_of_hasStart (fun x hx => (hp x hx).no_slash) (fun x hx => (hq x hx).no_slash)
        hroot h

/-- A directory to change to is written in full, and lies within the home. -/
theorem directoryAt_eq_ok {path target : String} (h : s.directoryAt path = .ok target) :
    target = format (resolve (s.expandHome path) s.cwd) ∧ s.insideHome target = true := by
  unfold directoryAt at h
  dsimp only at h
  split at h
  · cases h
  · split at h
    · cases h
    · split at h
      · cases h
      · next hinside =>
        cases h
        exact ⟨rfl, by simpa using hinside⟩

/-- To change the working directory is to stay at home. -/
theorem AtHome.changeDirectory (h : s.AtHome place) (path : String) :
    (s.changeDirectory path).2.AtHome place := by
  obtain ⟨q, hq, hproper, -⟩ := h.inside
  rcases s.changeDirectory_cases path with hs | ⟨target, ht, hs⟩
  · rw [hs]
    exact h
  · rw [hs]
    obtain ⟨rfl, hinside⟩ := directoryAt_eq_ok ht
    have hcwd : s.cwd = format q := Environment.nonEmptyOr_format hq
    have hbase : ∀ x ∈ base s.cwd, IsProper x := by
      rw [hcwd, base_format hproper]
      exact hproper
    have htarget : ∀ x ∈ resolve (s.expandHome path) s.cwd, IsProper x :=
      proper_resolve (Or.inr hbase)
    have hhome : s.home = format place := Environment.nonEmptyOr_format h.home
    have hne : "HOME" ≠ "PWD" := by decide
    exact ⟨h.proper, (OrderedMap.get?_set_of_ne hne _ _).trans h.home, _,
      OrderedMap.get?_set_self _ _ _, htarget,
      prefix_of_insideHome h.proper htarget hhome hinside⟩

/-- Every effect keeps a session at home that leaves the two directories to `cd`. -/
theorem AtHome.apply {j : Job} (h : j.session.AtHome place) {e : Effect} (he : e.LeavesHome) :
    (e.apply j).session.AtHome place := by
  by_cases henter : ∃ path, e = .enter path
  · obtain ⟨path, rfl⟩ := henter
    rw [Effect.apply, Job.session_mapSession]
    exact h.changeDirectory path
  · have hsets : ∀ name, ¬ e.Assigns name → ¬ e.Sets name := by
      intro name hno
      cases e with
      | enter path => exact absurd ⟨path, rfl⟩ henter
      | _ => exact hno
    exact h.of_env (Effect.get?_apply (hsets _ he.home) j) (Effect.get?_apply (hsets _ he.pwd) j)

/-- A session stays at home while nothing sets the two variables but changes of the directory. -/
theorem AtHome.steps {j j' : Job} (h : j.session.AtHome place)
    (hsteps : Steps Effect.LeavesHome j j') : j'.session.AtHome place :=
  hsteps.keeps (P := fun j => j.session.AtHome place) h fun _ _ he hj => hj.apply he

/-- Whether a stage leaves the working directory and the home directory to `cd`. -/
def LeavesDirectories (v : Visit) : Prop := ¬ v.Exports "PWD" ∧ ¬ v.Exports "HOME"

/-- A line whose stages leave the directories to `cd` stays at home, at each of its stages and in
the end. -/
theorem AtHome.runOn (h : s.AtHome place) (hs : s.Sound) {line : String} {d : Display}
    (hvisits : ∀ v ∈ s.visits line d, LeavesDirectories v) :
    (s.runOn line d).2.session.AtHome place ∧
      ∀ v ∈ s.visits line d, v.job.session.AtHome place := by
  have hfirst : (s.firstJob line d).session.AtHome place := by
    refine h.of_env ?_ ?_
    · rw [firstJob, env_remember]
    · rw [firstJob, env_remember]
  have hbetween : ∀ e : Effect, e.Between → e.LeavesHome := fun e he =>
    ⟨he.plain, he.not_assigns "PWD", he.not_assigns "HOME"⟩
  obtain ⟨hlast, hall⟩ := steps_runOn hbetween (fun e he => he.plain) hs line d fun v hv e he =>
    ⟨he.plain, fun hset => (hvisits v hv).1 (Visit.exports_of_mayDo he hset), fun hset =>
      (hvisits v hv).2 (Visit.exports_of_mayDo he hset)⟩
  exact ⟨hfirst.steps hlast, fun v hv => hfirst.steps (hall v hv)⟩

/-- A session stays at home through lines that leave the two variables to changes of the
directory. -/
theorem AtHome.comesTo {s' : Session} (h : s.AtHome place) (hs : s.Reached)
    (hlines : s.ComesTo LeavesDirectories s') : s'.AtHome place := by
  induction hlines with
  | start => exact h
  | line hlines line d hvisits ih => exact (ih.runOn (hlines.reached hs).sound hvisits).1
  | clock _ now ih => exact ih.of_env rfl rfl

/-- A boot ends at home, if the home directory is given as the path of a place. -/
theorem atHome_of_boot {b : Boot} {registry : Registry} {clock : Int} {storage : Storage}
    (hhome : b.config.home = format (resolve b.config.home "/"))
    (hs : (b.run registry clock storage).1 = .ok s) :
    s.AtHome (resolve b.config.home "/") := by
  have hproper := proper_resolve_root b.config.home
  have hvalue : ∀ name, (name, b.config.home) ∈ b.config.startVariables →
      s.env.get? name = some (format (resolve b.config.home "/")) := by
    intro name hname
    rw [← hhome]
    exact Boot.get?_of_run hs hname
  exact ⟨hproper, hvalue "HOME" (by simp [Config.startVariables]), _,
    hvalue "PWD" (by simp [Config.startVariables]), hproper, List.prefix_refl _⟩

/-- Whatever lines are run after a boot, a stage changes the working directory only if it runs `cd`,
or `export` with a word for it, and a line only if one of its stages does so. As long as no stage
exports the working directory or the home directory, the session is within the home directory of its
settings, in every state between two lines and at every stage. -/
theorem leaves_home_by_export {b : Boot} {clock : Int} {storage : Storage} {s s' : Session}
    (hhome : b.config.home = format (resolve b.config.home "/"))
    (hs : (b.run builtIns clock storage).1 = .ok s) {visited : Visit → Prop}
    (hlines : s.ComesTo visited s') (line : String) (d : Display) :
    ((∀ v ∈ s'.visits line d,
          v.run.2.session.env.get? "PWD" ≠ v.job.session.env.get? "PWD" →
            (∃ words, v.Executes .cd words) ∨ v.Exports "PWD") ∧
        ((s'.runOn line d).2.session.env.get? "PWD" ≠ s'.env.get? "PWD" →
          ∃ v ∈ s'.visits line d, (∃ words, v.Executes .cd words) ∨ v.Exports "PWD")) ∧
      ((∀ v, visited v → LeavesDirectories v) →
        s'.IsWithin (resolve b.config.home "/") ∧
          ((∀ v ∈ s'.visits line d, LeavesDirectories v) →
            ∀ v ∈ s'.visits line d, v.job.session.IsWithin (resolve b.config.home "/"))) := by
  have hreached : s.Reached := .boot hs
  have hsound := (hlines.reached hreached).sound
  refine ⟨⟨fun v hv hchanged => ?_, fun hchanged => ?_⟩, fun hleaves => ?_⟩
  · exact (Visit.sets_of_changed (sound_of_mem_visits hsound hv) hchanged).imp_left And.right
  · obtain ⟨v, hv, hset⟩ := sets_of_changed hsound hchanged
    exact ⟨v, hv, hset.imp_left And.right⟩
  · have hathome := (atHome_of_boot hhome hs).comesTo hreached (hlines.mono hleaves)
    exact ⟨hathome.isWithin, fun hvisits v hv => ((hathome.runOn hsound hvisits).2 v hv).isWithin⟩

/-- After the usual boot and `cd`, the session is within the usual home directory. -/
theorem within_home_after_cd :
    ∃ s : Session, Boot.usual = .ok s ∧
      (s.runOn "cd" .apart).2.session.IsWithin (resolve Config.usual.home "/") := by
  obtain ⟨s, hs⟩ := Boot.exists_usual
  have hplain : s.expandAlias "cd" = "cd" := by
    rw [expandAlias, Boot.aliases_of_run hs]
    decide +kernel
  obtain ⟨v, hvisits, hcommand⟩ := visits_of_one (by decide +kernel) hplain
  have hparts : Parts.ofStage v.command = .ok ⟨["cd"], []⟩ := by
    rw [hcommand]
    decide +kernel
  have hleaves : ∀ v' ∈ s.visits "cd" .apart, LeavesDirectories v' := by
    rw [hvisits]
    intro v' hv'
    rw [List.mem_singleton.mp hv']
    exact ⟨Visit.not_exports_of_bare hparts rfl _, Visit.not_exports_of_bare hparts rfl _⟩
  have hlines : s.ComesTo LeavesDirectories (s.runOn "cd" .apart).2.session :=
    .line .start "cd" .apart hleaves
  have hhome : Config.usual.home = format (resolve Config.usual.home "/") := by decide +kernel
  exact ⟨s, hs, ((leaves_home_by_export hhome hs hlines "pwd" .apart).2 fun _ h => h).1⟩

/-- To export the working directory is to leave the home directory, without `cd`. -/
theorem export_leaves_home :
    Config.usual.home = format (resolve Config.usual.home "/") ∧
      ∃ s : Session, Boot.usual = .ok s ∧
        s.env.get? "PWD" = some Config.usual.home ∧
          (s.runOn "export PWD=/" .apart).2.session.env.get? "PWD" = some "/" ∧
            ¬ (s.runOn "export PWD=/" .apart).2.session.IsWithin
              (resolve Config.usual.home "/") := by
  obtain ⟨hbefore, hafter⟩ : Boot.usualSession.env.get? "PWD" = some Config.usual.home ∧
      (Boot.usualSession.runOn "export PWD=/" .apart).2.session.env.get? "PWD" = some "/" := by
    decide +kernel
  refine ⟨by decide +kernel, Boot.usualSession, Boot.usual_eq, hbefore, hafter, ?_⟩
  rintro ⟨pwd, hpwd, hle⟩
  obtain rfl : "/" = pwd := Option.some.inj (hafter.symm.trans hpwd)
  exact absurd hle (by decide +kernel)

end Session

end TreeShell
