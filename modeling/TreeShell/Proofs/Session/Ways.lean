import TreeShell.Proofs.Session.Confinement

/-!
# Ways in parts

A path can be gone in parts: what is behind a slash in it leads, from where the part before the
slash leads, to where the whole path leads. That holds from every working directory, and however far
the parts climb, for the path of a place keeps all its segments when it is taken as a working
directory. So after the working directory was changed, a path denotes what it denoted before behind
the path of the change.
-/

namespace TreeShell

namespace Path

variable {p q cwd : String}

theorem resolve_of_relative_format (hq : Text.hasStart q "/" = false) (place cwd : String) :
    resolve q (format (resolve place cwd)) = (parts q).foldl step (resolve place cwd) := by
  have hrelative : ¬ Text.hasStart q "/" = true := by
    rw [hq]
    exact Bool.false_ne_true
  rw [resolve, if_neg hrelative, base_format_resolve]

/-- What is behind a slash in a path leads on from where the part before it leads. -/
theorem resolve_resolve (hp : p ≠ "") (hq : Text.hasStart q "/" = false) (cwd : String) :
    resolve q (format (resolve p cwd)) = resolve (p ++ ("/" ++ q)) cwd := by
  rw [resolve_of_relative_format hq, resolve_joined_parts hp]

theorem join_joined (p q : String) (ps : List String) :
    Text.join "/" ((p ++ ("/" ++ q)) :: ps) = Text.join "/" (p :: q :: ps) := by
  cases ps with
  | nil =>
    rw [Text.join, Text.join, String.intercalate_singleton, String.intercalate_cons_cons,
      String.intercalate_singleton, String.append_assoc]
  | cons r ps =>
    rw [Text.join, Text.join, String.intercalate_cons_cons, String.intercalate_cons_cons,
      String.intercalate_cons_cons]
    simp only [String.append_assoc]

/-- Paths that are followed one after another, each from where the one before led, lead to where
they lead with slashes between them. -/
theorem foldl_resolve {ps : List String} (hp : p ≠ "")
    (hps : ∀ r ∈ ps, Text.hasStart r "/" = false) (cwd : String) :
    ps.foldl (fun place r => format (resolve r place)) (format (resolve p cwd)) =
      format (resolve (Text.join "/" (p :: ps)) cwd) := by
  induction ps generalizing p with
  | nil =>
    rw [Text.join, String.intercalate_singleton]
    rfl
  | cons r ps ih =>
    obtain ⟨hr, hrest⟩ := List.forall_mem_cons.mp hps
    have hjoined : p ++ ("/" ++ r) ≠ "" := fun he => hp (String.append_eq_empty_iff.mp he).1
    rw [List.foldl_cons, resolve_resolve hp hr, ih hjoined hrest, join_joined]

end Path

open TreeShell.Path

namespace Session

variable {s s' : Session} {path result : String}

/-- A change of the working directory that succeeds makes it the path of where the path leads, and
leaves the volume as it was. -/
theorem of_changeDirectory (h : s.changeDirectory path = (.ok result, s')) :
    s'.volume = s.volume ∧ s'.cwd = format (resolve (s.expandHome path) s.cwd) := by
  unfold changeDirectory at h
  split at h
  · cases h
  · next target htarget =>
    cases h
    obtain ⟨rfl, -⟩ := directoryAt_eq_ok htarget
    exact ⟨rfl, Environment.nonEmptyOr_format (OrderedMap.get?_set_self _ _ _)⟩

/-- A path with another behind it begins with a tilde for the home directory just if the first
does. -/
theorem hasTilde_joined_iff {p : String} (hp : p ≠ "") (q : String) :
    HasTilde (p ++ ("/" ++ q)) ↔ HasTilde p := by
  obtain ⟨c, cs, hcs⟩ := List.exists_cons_of_ne_nil (mt String.toList_eq_nil_iff.mp hp)
  have hjoined : (p ++ ("/" ++ q)).toList = c :: (cs ++ '/' :: q.toList) := by
    rw [String.toList_append, String.toList_append, hcs]
    rfl
  rw [hasTilde_iff, hasTilde_iff, hjoined, hcs]
  cases cs with
  | nil => simp
  | cons d cs => simp

/-- A path that is not empty and one that does not begin with a slash lead, one after the other, to
where they lead with a slash between them; likewise if more of the latter kind come between. The
path of a place of proper segments leads to that place. So, after a change of the working directory,
a path denotes the node that it denoted before behind the path of the change. -/
theorem goes_in_parts {p q : String} (hp : p ≠ "") (hq : Text.hasStart q "/" = false) :
    (∀ cwd, resolve q (format (resolve p cwd)) = resolve (p ++ ("/" ++ q)) cwd) ∧
      (∀ place : Segments, (∀ x ∈ place, IsProper x) → ∀ cwd, resolve (format place) cwd = place) ∧
      (∀ cwd (ps : List String), (∀ r ∈ ps, Text.hasStart r "/" = false) →
        resolve q (ps.foldl (fun place r => format (resolve r place)) (format (resolve p cwd))) =
          resolve (Text.join "/" (p :: (ps ++ [q]))) cwd) ∧
      ∀ (s s' : Session) (result : String), s.changeDirectory p = (.ok result, s') →
        resolve q s'.cwd = resolve (s.expandHome (p ++ ("/" ++ q))) s.cwd ∧
          s'.volume.tree.lookup (resolve q s'.cwd) =
            s.volume.tree.lookup (resolve (s.expandHome (p ++ ("/" ++ q))) s.cwd) ∧
          (¬ HasTilde p → s'.volume.tree.lookup (resolve q s'.cwd) =
            s.volume.tree.lookup (resolve (p ++ ("/" ++ q)) s.cwd)) := by
  refine ⟨resolve_resolve hp hq, fun place hplace => resolve_format hplace, fun cwd ps hps => ?_,
    fun s s' result h => ?_⟩
  · have hall : ∀ r ∈ ps ++ [q], Text.hasStart r "/" = false := by
      intro r hr
      rcases List.mem_append.mp hr with hr | hr
      · exact hps r hr
      · exact List.mem_singleton.mp hr ▸ hq
    have hfold := foldl_resolve hp hall cwd
    rw [List.foldl_append, List.foldl_cons, List.foldl_nil] at hfold
    have hbase := congrArg base hfold
    rwa [base_format_resolve, base_format_resolve] at hbase
  · obtain ⟨hvolume, hcwd⟩ := of_changeDirectory h
    have hexpand := expandHome_append hp (hasTilde_joined_iff hp q) s
    have hresolve : resolve q s'.cwd = resolve (s.expandHome (p ++ ("/" ++ q))) s.cwd := by
      rw [hcwd, hexpand, resolve_resolve (expandHome_ne_empty hp s) hq]
    refine ⟨hresolve, by rw [hvolume, hresolve], fun htilde => ?_⟩
    rw [hvolume, hresolve, expandHome_of_not_hasTilde (mt (hasTilde_joined_iff hp q).mp htilde)]

theorem changeDirectory_twoBelow :
    twoBelow.changeDirectory ".." =
      (.ok "/a", { twoBelow with env := ⟨twoBelow.env.vars.set "PWD" "/a"⟩ }) := by
  have hok : twoBelow.directoryAt ".." = .ok "/a" := by decide +kernel
  exact changeDirectory_of_ok hok

/-- Two directories up, in one go and in two, from the second directory below the root; one more
leads nowhere. -/
theorem goes_in_parts_to_root :
    resolve "../.." (format (resolve ".." "/a/b")) = resolve "../../.." "/a/b" ∧
      resolve "../../.." "/a/b" = [] ∧
      resolve (format ["a", "b"]) "/c" = ["a", "b"] ∧
      resolve "../.." (["../c"].foldl (fun place r => format (resolve r place))
          (format (resolve ".." "/a/b"))) = resolve "../../c/../.." "/a/b" ∧
      ∃ s', twoBelow.changeDirectory ".." = (.ok "/a", s') ∧
        s'.volume.tree.lookup (resolve "../.." s'.cwd) =
          twoBelow.volume.tree.lookup (resolve "../../.." twoBelow.cwd) := by
  obtain ⟨htwo, hplace, hchain, hchange⟩ :=
    goes_in_parts (p := "..") (q := "../..") (by decide) (by decide)
  refine ⟨htwo "/a/b", by decide +kernel, hplace ["a", "b"] (by decide) "/c",
    hchain "/a/b" ["../c"] (by decide), _, changeDirectory_twoBelow,
    (hchange _ _ _ changeDirectory_twoBelow).2.2 (by decide)⟩

end Session

end TreeShell
