import TreeShell.Proofs.Session.Operands
import TreeShell.Proofs.Session.Streams
import TreeShell.Proofs.Volume.Moving

/-!
# Operands that are not removed

An operand withstands a removal that reports it, fails, and leaves the volume as if the operand had
not been given. The operands that are never removed are known by their spelling. Another operand
that leads to the same place withstands only as any operand does: if the place is the root, if
nothing is there and that is not to be ignored, or if a directory with entries is there that is not
to be removed with them.
-/

namespace TreeShell

open TreeShell.Action TreeShell.Path

namespace Volume

variable {v : Volume} {cwd path : String} {recursive : Bool}

/-- What comes of a removal: what is at and below the place is gone, or it is refused, for one of
three reasons. -/
inductive Deletion (v : Volume) (cwd path : String) (recursive : Bool) :
    Except PathError Unit × Volume → Prop where
  | root (hroot : resolve path cwd = []) : Deletion v cwd path recursive (.error .removeRoot, v)
  | missing (hroot : resolve path cwd ≠ []) (hnone : v.tree.item? (resolve path cwd) = none) :
    Deletion v cwd path recursive (.error (.notFound path), v)
  | occupied (hroot : resolve path cwd ≠ []) (hthere : v.tree.item? (resolve path cwd) ≠ none)
    (hentries : recursive = false ∧ ∃ a, v.tree.item? (resolve path cwd ++ [a]) ≠ none) :
    Deletion v cwd path recursive (.error (.notEmpty path), v)
  | removed {v' : Volume} (hroot : resolve path cwd ≠ [])
    (hthere : v.tree.item? (resolve path cwd) ≠ none)
    (hentries : ¬ (recursive = false ∧ ∃ a, v.tree.item? (resolve path cwd ++ [a]) ≠ none))
    (hw : v'.tree.WellFormed) (hitem : v'.tree.item? = v.tree.item?.prune (resolve path cwd)) :
    Deletion v cwd path recursive (.ok (), v')

/-- A removal is refused for the place that its path leads to. -/
theorem error_of_delete {e : PathError} (h : v.tree.WellFormed)
    (he : (v.tree.delete cwd path recursive).1 = .error e) :
    (resolve path cwd = [] ∧ e = .removeRoot) ∨
      (resolve path cwd ≠ [] ∧ v.tree.item? (resolve path cwd) = none ∧ e = .notFound path) ∨
      (resolve path cwd ≠ [] ∧ v.tree.item? (resolve path cwd) ≠ none ∧ e = .notEmpty path) := by
  have hs := h.standing (resolve path cwd)
  generalize hr : resolve path cwd = place at hs
  cases hs with
  | root =>
    rw [Tree.delete_root hr] at he
    cases he
    exact .inl ⟨rfl, rfl⟩
  | orphan hno =>
    rw [Tree.delete_of_lookup_none hr (Tree.lookup_of_find?_none (Tree.find?_of_orphan hno))] at he
    cases he
    exact .inr (.inl ⟨List.append_ne_nil_of_right_ne_nil _ (List.cons_ne_nil _ _),
      Tree.item?_of_orphan hno, rfl⟩)
  | free hd hn =>
    rw [Tree.delete_of_lookup_none hr (Tree.lookup_of_find?_none (Tree.find?_of_free hd hn))] at he
    cases he
    exact .inr (.inl ⟨List.append_ne_nil_of_right_ne_nil _ (List.cons_ne_nil _ _),
      Tree.item?_of_free hd hn (List.prefix_refl _), rfl⟩)
  | entry hd hn hi =>
    have hthere := Tree.item?_of_entry hd hn hi
    rw [Tree.delete_entry hr hd hn hi] at he
    split at he
    · cases he
      exact .inr (.inr ⟨List.append_ne_nil_of_right_ne_nil _ (List.cons_ne_nil _ _),
        by rw [hthere]; exact Option.some_ne_none _, rfl⟩)
    · cases he

/-- A deletion comes to one of its outcomes. -/
theorem deletion (h : v.tree.WellFormed) (cwd path : String) (recursive : Bool) :
    Deletion v cwd path recursive (v.perform cwd (.delete path recursive)) := by
  have hp := performed h cwd (.delete path recursive)
  have hreply := reply_perform v cwd (.delete path recursive)
  generalize v.perform cwd (.delete path recursive) = result at hp hreply
  cases hp with
  | saved hpermitted _ hw hm =>
    obtain ⟨hroot, hthere, hentries⟩ := hpermitted
    refine .removed hroot hthere ?_ (by rw [tree_save]; exact hw) (by rw [tree_save]; exact hm)
    rintro ⟨hr, a, ha⟩
    rcases hentries with hyes | hnone
    · rw [hr] at hyes
      cases hyes
    · exact ha (hnone a)
  | idle _ hidle => exact hidle.elim
  | @refused e hno =>
    have he : (v.tree.delete cwd path recursive).1 = .error e := by
      change _ = (v.tree.delete cwd path recursive).1.map _ at hreply
      generalize (v.tree.delete cwd path recursive).1 = outcome at hreply
      cases outcome with
      | ok changed => cases hreply
      | error e' => cases hreply; rfl
    rcases error_of_delete h he with ⟨hroot, rfl⟩ | ⟨hroot, hnone, rfl⟩ | ⟨hroot, hthere, rfl⟩
    · exact .root hroot
    · exact .missing hroot hnone
    · refine .occupied hroot hthere ?_
      rw [Edit.Permitted, not_and, not_and, not_or, not_forall] at hno
      obtain ⟨hr, a, ha⟩ := hno hroot hthere
      exact ⟨eq_false_of_ne_true hr, a, ha⟩

end Volume

namespace Utility

variable {ctx : Context} {j k : Job} {before after : List String} {operand : String}

/-! ## One operand -/

/-- What is at a place is not removed, and that is reported: it is the root, there is nothing and
that is not ignored, or it is a directory with entries that is not removed with them. -/
def Spared (ctx : Context) (t : Tree) (place : Segments) : Prop :=
  place = [] ∨ (t.item? place = none ∧ ctx.flag ["f", "force"] = false) ∨
    (t.item? place ≠ none ∧ ctx.flag ["r", "R", "recursive"] = false ∧
      ∃ a, t.item? (place ++ [a]) ≠ none)

/-- An operand is not removed, and that is reported. -/
def Withheld (ctx : Context) (t : Tree) (operand : String) : Prop :=
  operand ∈ protectedOperands ∨ Spared ctx t (resolve operand ctx.cwd)

/-- What the removal of one operand comes to: it is reported, there is nothing to remove, or what is
at and below its place is removed. -/
inductive Removal (ctx : Context) (j : Job) (operand : String) :
    Except Fault Bool × Job → Prop where
  | withheld (line : String) (h : Withheld ctx j.session.volume.tree operand) :
    Removal ctx j operand
      (.ok false, { j with pool := j.pool.write ctx.ends.errors ("rm: " ++ line ++ "\n") })
  | passed (h : ¬ Withheld ctx j.session.volume.tree operand)
    (hnone : j.session.volume.tree.item? (resolve operand ctx.cwd) = none) :
    Removal ctx j operand (.ok true, j)
  | removed {v : Volume} (h : ¬ Withheld ctx j.session.volume.tree operand)
    (hthere : j.session.volume.tree.item? (resolve operand ctx.cwd) ≠ none)
    (hv : j.session.volume.perform ctx.cwd
      (.delete operand (ctx.flag ["r", "R", "recursive"])) = (.ok (), v))
    (hw : v.tree.WellFormed)
    (hitem : v.tree.item? = j.session.volume.tree.item?.prune (resolve operand ctx.cwd)) :
    Removal ctx j operand (.ok true, j.mapSession fun s => { s with volume := v })

/-- A job whose tree is well-formed and whose error output takes what is written to it. -/
structure Reporting (ctx : Context) (j : Job) : Prop where
  wellFormed : j.session.volume.tree.WellFormed
  takes : j.pool.Takes (j.pool.endOf ctx.ends.errors)

/-- An operand that is withheld is only reported. -/
theorem removal_of_report (h : Reporting ctx j)
    (hwithheld : Withheld ctx j.session.volume.tree operand) (line : String) :
    Removal ctx j operand (result (do complain ctx ("rm: " ++ line); return false) j) := by
  rw [result_bind, result_complain h.takes]
  exact .withheld line hwithheld

/-- To remove an operand comes to one of the outcomes of a removal. -/
theorem removal (h : Reporting ctx j) (operand : String) :
    Removal ctx j operand (result (removeOperand ctx operand) j) := by
  rw [removeOperand]
  by_cases hprotected : operand ∈ protectedOperands
  · have hline : "rm: cannot remove '" ++ operand ++ "': Is a special file" =
        "rm: " ++ ("cannot remove '" ++ operand ++ "': Is a special file") := by
      rw [show "rm: cannot remove '" = "rm: " ++ "cannot remove '" from rfl]
      simp only [String.append_assoc]
    rw [if_pos (List.contains_iff_mem.mpr hprotected), hline]
    exact removal_of_report h (.inl hprotected) _
  · rw [if_neg (mt List.contains_iff_mem.mp hprotected), result_bind, result_attempt, result_edit,
      Job.edit, Job.mapSession]
    have hd := Volume.deletion h.wellFormed ctx.cwd operand (ctx.flag ["r", "R", "recursive"])
    generalize hv : j.session.volume.perform ctx.cwd
      (.delete operand (ctx.flag ["r", "R", "recursive"])) = outcome at hd
    have hspared : ¬ Spared ctx j.session.volume.tree (resolve operand ctx.cwd) →
        ¬ Withheld ctx j.session.volume.tree operand := fun hno hwithheld =>
      hwithheld.elim hprotected hno
    cases hd with
    | root hroot => exact removal_of_report h (.inr (.inl hroot)) _
    | missing hroot hnone =>
      by_cases hforce : ctx.flag ["f", "force"] = true
      · have hno : ¬ Spared ctx j.session.volume.tree (resolve operand ctx.cwd) := by
          rintro (hyes | ⟨-, hyes⟩ | ⟨hyes, -⟩)
          · exact hroot hyes
          · rw [hforce] at hyes
            cases hyes
          · exact hyes hnone
        dsimp only [Fault.ofPathError]
        rw [if_pos (by rw [hforce]; rfl)]
        exact .passed (hspared hno) hnone
      · dsimp only [Fault.ofPathError]
        rw [if_neg (by simp [hforce])]
        exact removal_of_report h (.inr (.inr (.inl ⟨hnone, eq_false_of_ne_true hforce⟩))) _
    | occupied hroot hthere hentries =>
      exact removal_of_report h (.inr (.inr (.inr ⟨hthere, hentries⟩))) _
    | @removed v hroot hthere hentries hw hitem =>
      refine .removed (hspared ?_) hthere hv hw hitem
      rintro (hyes | ⟨hyes, -⟩ | ⟨-, hyes⟩)
      · exact hroot hyes
      · exact hthere hyes
      · exact hentries hyes

/-- A removal comes to an end, and the next one can be reported as well. -/
theorem Reporting.removal_next (h : Reporting ctx j) (operand : String) :
    (∃ done, (result (removeOperand ctx operand) j).1 = .ok done) ∧
      Reporting ctx (result (removeOperand ctx operand) j).2 := by
  have hr := removal h operand
  generalize result (removeOperand ctx operand) j = outcome at hr
  cases hr with
  | withheld line _ =>
    exact ⟨⟨false, rfl⟩, h.wellFormed, (j.pool.growsTo_write _ _).takes_endOf h.takes⟩
  | passed => exact ⟨⟨true, rfl⟩, h⟩
  | removed _ _ _ hw => exact ⟨⟨true, rfl⟩, hw, h.takes⟩

/-- What is left of a volume does not depend on what was reported. -/
theorem volume_removal (h : Reporting ctx j) (h' : Reporting ctx k)
    (hv : j.session.volume = k.session.volume) (operand : String) :
    (result (removeOperand ctx operand) j).2.session.volume =
      (result (removeOperand ctx operand) k).2.session.volume := by
  have hr := removal h operand
  have hr' := removal h' operand
  generalize result (removeOperand ctx operand) j = outcome at hr
  generalize result (removeOperand ctx operand) k = outcome' at hr'
  cases hr with
  | withheld _ hwithheld =>
    rw [hv] at hwithheld
    cases hr' with
    | withheld => exact hv
    | passed hno => exact absurd hwithheld hno
    | removed hno => exact absurd hwithheld hno
  | passed hno hnone =>
    rw [hv] at hno hnone
    cases hr' with
    | withheld _ hwithheld => exact absurd hwithheld hno
    | passed => exact hv
    | removed _ hthere => exact absurd hnone hthere
  | removed hno hthere hperform =>
    rw [hv] at hno hthere hperform
    cases hr' with
    | withheld _ hwithheld => exact absurd hwithheld hno
    | passed _ hnone => exact absurd hnone hthere
    | removed _ _ hperform' =>
      rw [hperform] at hperform'
      exact congrArg Prod.snd hperform'

/-! ## One operand of several -/

/-- After any operands the next one can be reported as well. -/
theorem Reporting.through (h : Reporting ctx j) (operands : List String) :
    Reporting ctx (through (removeOperand ctx) operands j) :=
  (result_each (P := Reporting ctx) (fun operand _ h => h.removal_next operand) h operands).1

/-- What operands leave of a volume depends on the volume alone. -/
theorem volume_through (h : Reporting ctx j) (h' : Reporting ctx k)
    (hv : j.session.volume = k.session.volume) (operands : List String) :
    (through (removeOperand ctx) operands j).session.volume =
      (through (removeOperand ctx) operands k).session.volume := by
  induction operands generalizing j k with
  | nil => exact hv
  | cons operand rest ih =>
    exact ih (h.removal_next operand).2 (h'.removal_next operand).2 (volume_removal h h' hv operand)

/-- To remove some operands is to remove one after another; it fails just if one of them is withheld
in its turn. -/
theorem result_rm (h : Reporting ctx j) (hhelp : ctx.flag ["help"] = false)
    (hoperands : ctx.arguments ≠ []) :
    ∃ code, result (rm ctx) j = (.ok code, through (removeOperand ctx) ctx.arguments j) ∧
      (code = failure ↔ FailsInTurn (removeOperand ctx) ctx.arguments j) := by
  rw [rm, if_neg (by simp [hhelp, hoperands])]
  exact (result_each (P := Reporting ctx) (fun operand _ h => h.removal_next operand) h _).2

/-- One of several operands withstands: the removal fails in the end, it says why when the operand's
turn comes, it leaves the volume then as it is, and goes on with the others as if the operand had
not been given. -/
structure Withstands (ctx : Context) (j : Job) (before : List String) (operand : String)
    (after : List String) : Prop where
  fails : (result (rm ctx) j).1 = .ok failure
  reported : ∃ line, (through (removeOperand ctx) (before ++ [operand]) j).pool.heard
      ((through (removeOperand ctx) before j).pool.endOf ctx.ends.errors) =
    (through (removeOperand ctx) before j).pool.heard
      ((through (removeOperand ctx) before j).pool.endOf ctx.ends.errors) ++
        ("rm: " ++ line ++ "\n")
  kept : (through (removeOperand ctx) (before ++ [operand]) j).session.volume =
    (through (removeOperand ctx) before j).session.volume
  others : (result (rm ctx) j).2.session.volume =
    (through (removeOperand ctx) (before ++ after) j).session.volume

/-- The last operand is removed after those before it. -/
theorem through_concat (before : List String) (operand : String) (j : Job) :
    through (removeOperand ctx) (before ++ [operand]) j =
      (result (removeOperand ctx operand) (through (removeOperand ctx) before j)).2 :=
  through_append _ _ _ _

/-- When it is asked for help, a removal does not fail. -/
theorem result_rm_help (hhelp : ctx.flag ["help"] = true) (j : Job) :
    (result (rm ctx) j).1 ≠ .ok failure := by
  rw [rm, if_pos (by rw [hhelp]; rfl), result_bind]
  generalize result (put ctx rmUsage) j = outcome
  obtain ⟨fault | a, j'⟩ := outcome
  · exact fun he => nomatch he
  · exact fun he => absurd (Except.ok.inj he) (by decide)

/-- An operand withstands just if it is withheld in its turn, unless help is asked for. -/
theorem withstands_iff (h : Reporting ctx j)
    (hoperands : ctx.arguments = before ++ operand :: after) :
    Withstands ctx j before operand after ↔ ctx.flag ["help"] = false ∧
      Withheld ctx (through (removeOperand ctx) before j).session.volume.tree operand := by
  have hturn := h.through before
  have hr := removal hturn operand
  have hconcat : through (removeOperand ctx) (before ++ [operand]) j = _ :=
    through_concat before operand j
  constructor
  · intro hstands
    refine ⟨eq_false_of_ne_true fun hhelp => result_rm_help hhelp j hstands.fails, ?_⟩
    by_contra hno
    -- An operand that is not withheld is done without a word.
    have hquiet : (through (removeOperand ctx) (before ++ [operand]) j).pool =
        (through (removeOperand ctx) before j).pool := by
      rw [hconcat]
      generalize result (removeOperand ctx operand) _ = outcome at hr
      cases hr with
      | withheld _ hyes => exact absurd hyes hno
      | passed => rfl
      | removed => rfl
    obtain ⟨line, hline⟩ := hstands.reported
    rw [hquiet] at hline
    have hlength := congrArg String.length hline
    have hword : "rm: ".length = 4 := rfl
    rw [String.length_append, String.length_append, String.length_append, hword] at hlength
    omega
  · rintro ⟨hhelp, hwithheld⟩
    obtain ⟨code, hresult, hcode⟩ := result_rm h hhelp (by rw [hoperands]; simp)
    obtain ⟨line, hline⟩ : ∃ line, result (removeOperand ctx operand)
        (through (removeOperand ctx) before j) =
          (.ok false, { through (removeOperand ctx) before j with
            pool := (through (removeOperand ctx) before j).pool.write ctx.ends.errors
              ("rm: " ++ line ++ "\n") }) := by
      generalize result (removeOperand ctx operand) _ = outcome at hr
      cases hr with
      | withheld line => exact ⟨line, rfl⟩
      | passed hno => exact absurd hwithheld hno
      | removed hno => exact absurd hwithheld hno
    rw [hline] at hconcat
    refine ⟨?_, ⟨line, ?_⟩, ?_, ?_⟩
    · rw [hresult, hcode.mpr ⟨before, operand, after, hoperands, by rw [hline]⟩]
    · rw [hconcat]
      exact Pool.heard_write hturn.takes
    · rw [hconcat]
    · have hlater : Reporting ctx (through (removeOperand ctx) (before ++ [operand]) j) :=
        h.through _
      have hsplit : operand :: after = [operand] ++ after := rfl
      rw [hresult, hoperands, through_append, hsplit, through_append, ← through_append _ before,
        through_append _ before after]
      exact volume_through hlater hturn (by rw [hconcat]) after

/-- An operand that leads where one of those does that are never removed, from any tree, with any
options and any other operands, withstands just if help is not asked for and it is spelled as one of
these, or the place is spared in its turn: it is the root, it is missing and that is not ignored, or
it is a directory with entries and these are not to be removed with it. Otherwise nothing is left
there after its turn. -/
theorem withstands_by_spelling (h : j.session.volume.tree.WellFormed)
    (htakes : j.pool.Takes (j.pool.endOf ctx.ends.errors))
    (hoperands : ctx.arguments = before ++ operand :: after) :
    let turn := (through (removeOperand ctx) before j).session.volume.tree
    (∀ special ∈ protectedOperands, resolve operand ctx.cwd = resolve special ctx.cwd →
        (Withstands ctx j before operand after ↔ ctx.flag ["help"] = false ∧
          (operand ∈ protectedOperands ∨ Spared ctx turn (resolve special ctx.cwd)))) ∧
      (ctx.flag ["help"] = false →
        (∃ code, result (rm ctx) j = (.ok code, through (removeOperand ctx) ctx.arguments j)) ∧
          (¬ Withheld ctx turn operand →
            (through (removeOperand ctx) (before ++ [operand]) j).session.volume.tree.item?
              (resolve operand ctx.cwd) = none)) := by
  intro turn
  have hreporting : Reporting ctx j := ⟨h, htakes⟩
  refine ⟨fun special _ hplace => ?_, fun hhelp => ⟨?_, fun hno => ?_⟩⟩
  · rw [withstands_iff hreporting hoperands, Withheld, hplace]
  · obtain ⟨code, hcode, -⟩ := result_rm hreporting hhelp (by rw [hoperands]; simp)
    exact ⟨code, hcode⟩
  · have hr := removal (hreporting.through before) operand
    rw [through_concat]
    generalize result (removeOperand ctx operand) _ = outcome at hr
    cases hr with
    | withheld _ hyes => exact absurd hyes hno
    | passed _ hnone => exact hnone
    | @removed v _ _ _ _ hitem =>
      change v.tree.item? _ = none
      rw [hitem]
      exact if_pos (List.prefix_refl _)

/-- The option to remove directories with their entries. -/
def withEntries (ctx : Context) : Context := { ctx with options := ctx.options.set "r" .flag }

/-- The root withstands in another spelling, between operands that are removed. -/
theorem root_withstands :
    Withstands (withEntries (given ["f", "//", "../c"] "/a")) (jobOn Volume.furnished) ["f"] "//"
      ["../c"] := by
  have hwellFormed : (jobOn Volume.furnished).session.volume.tree.WellFormed :=
    Volume.fresh_furnished.wellFormed
  have htakes : (jobOn Volume.furnished).pool.Takes ((jobOn Volume.furnished).pool.endOf
      (withEntries (given ["f", "//", "../c"] "/a")).ends.errors) := Nat.zero_lt_one
  have hoperands : (withEntries (given ["f", "//", "../c"] "/a")).arguments =
      ["f"] ++ "//" :: ["../c"] := rfl
  have hstands := (withstands_by_spelling hwellFormed htakes hoperands).1 "/" (by decide)
    (by decide +kernel)
  exact hstands.mpr ⟨rfl, .inr (.inl (by decide +kernel))⟩

/-- The working directory and the one above it are removed where a slash stands behind their
dots. -/
theorem directory_is_removed :
    (resolve "./" "/a" = resolve "." "/a" ∧
      (result (rm (withEntries (given ["./"] "/a"))) (jobOn Volume.furnished)).1 = .ok success ∧
      (result (rm (withEntries (given ["./"] "/a")))
        (jobOn Volume.furnished)).2.session.volume.tree.item? ["a"] = none) ∧
    resolve "../" "/a/b" = resolve ".." "/a/b" ∧
      (result (rm (withEntries (given ["../"] "/a/b"))) (jobOn Volume.furnished)).1 = .ok success ∧
      (result (rm (withEntries (given ["../"] "/a/b")))
        (jobOn Volume.furnished)).2.session.volume.tree.item? ["a"] = none :=
  ⟨⟨by decide +kernel, rfl, rfl⟩, by decide +kernel, rfl, rfl⟩

end Utility

end TreeShell
