import TreeShell.Proofs.Tree.Moves
import TreeShell.Proofs.Volume.Keeping

/-!
# Moving and moving back

A move that a volume makes takes one subtree to another place, and nothing else, or finds it where
it should go and does nothing. As long as no file gave way, the opposite move can be made, and all
places are then as they were.
-/

namespace TreeShell.Volume

variable {v : Volume} {cwd source destination : String}

/-- An edit succeeds just if it is permitted. -/
theorem perform_eq_ok_iff (h : v.tree.WellFormed) (cwd : String) (e : Edit) :
    (v.perform cwd e).1 = .ok () ↔ e.Permitted cwd v.tree.item? := by
  have hp := performed h cwd e
  generalize v.perform cwd e = result at hp
  cases hp with
  | saved hp => exact ⟨fun _ => hp, fun _ => rfl⟩
  | idle hp => exact ⟨fun _ => hp, fun _ => rfl⟩
  | refused hp => exact ⟨fun he => (nomatch he), fun hyes => absurd hyes hp⟩

/-- What comes of a move that is made: nothing, where the node is at its target, or another tree. -/
theorem moved_of_perform (h : v.tree.WellFormed)
    (hok : (v.perform cwd (.move source destination)).1 = .ok ()) :
    let dst := Edit.target cwd source destination v.tree.item?
    Path.resolve source cwd ≠ [] ∧ v.tree.item? (Path.resolve source cwd) ≠ none ∧
      (dst = Path.resolve source cwd → (v.perform cwd (.move source destination)).2 = v) ∧
      (dst ≠ Path.resolve source cwd → v.tree.Moved (Path.resolve source cwd) dst
        (v.perform cwd (.move source destination)).2.tree) := by
  intro dst
  have ho := Tree.outcome_perform v.clock cwd h (.move source destination)
  generalize hc : (Edit.move source destination).perform v.clock cwd v.tree = change at ho
  cases ho with
  | refused hp hr =>
    rw [perform_of_refused hc] at hok
    cases hok
  | unchanged hp hi =>
    rw [perform_of_unchanged hc]
    exact ⟨hp.1, hp.2.1, fun _ => rfl, fun hne => absurd hi hne⟩
  | @changed t' hp hi hw hm =>
    rw [perform_of_changed hc, tree_save]
    exact ⟨hp.1, hp.2.1, fun he => absurd he hi, fun _ => Tree.moved_of_move h hc⟩

/-- After any requests, a move that is made leaves the volume as it is, if the node is at its target
already. Otherwise it takes the node there with all that is below it, and changes nothing else. If
nothing was at the target, every move back is made, at any time, and restores all places. -/
theorem relocates_one_subtree (h : v.Fresh) (rs : List Request) (now : Int)
    (hok : (((v.serve rs).2.atClock now).perform cwd (.move source destination)).1 = .ok ()) :
    let w := (v.serve rs).2.atClock now
    let w' := (w.perform cwd (.move source destination)).2
    let src := Path.resolve source cwd
    let dst := Edit.target cwd source destination w.tree.item?
    (dst = src → w' = w) ∧
      (dst ≠ src → w.tree.Moved src dst w'.tree ∧
        (w.tree.item? dst = none → ∀ (later : Int) (cwd' source' destination' : String),
          Path.resolve source' cwd' = dst → Path.resolve destination' cwd' = src →
            let back := (w'.atClock later).perform cwd' (.move source' destination')
            back.1 = .ok () ∧ ∀ q, back.2.tree.find? q = w.tree.find? q ∧
              back.2.tree.item? q = w.tree.item? q)) := by
  intro w w' src dst
  have hw : w.tree.WellFormed := wellFormed_serve h rs
  obtain ⟨hne, hsrc, hsame, hmoved⟩ := moved_of_perform hw hok
  refine ⟨hsame, fun hdst => ?_⟩
  have hm : w.tree.Moved src dst w'.tree := hmoved hdst
  refine ⟨hm, fun hfree later cwd' source' destination' hs hd => ?_⟩
  intro back
  have hw' : (w'.atClock later).tree.WellFormed := by
    change w'.tree.WellFormed
    rw [tree_perform]
    exact Tree.wellFormed_perform w.clock cwd hw _
  obtain ⟨htarget, hpermitted⟩ := hm.permitted_back hw hfree hsrc hne hs hd
  have hmade : back.1 = .ok () := (perform_eq_ok_iff hw' _ _).mpr hpermitted
  refine ⟨hmade, ?_⟩
  obtain ⟨-, -, -, hback⟩ := moved_of_perform hw' hmade
  rw [hs] at hback
  have hdst' : Edit.target cwd' source' destination' (w'.atClock later).tree.item? = src := htarget
  rw [hdst'] at hback
  exact hm.undone hw hfree (hback hdst.symm)

/-- A volume with a directory that holds a file, and an empty directory. -/
def furnished : Volume :=
  unsaved (.ofNode (.directory (.ofDirectory 0)
    [("a", .directory (.ofDirectory 0) [("f", .file (.ofFile 0) (.string "x"))]),
      ("c", .directory (.ofDirectory 0) [])])) 0

/-- The tree of this volume is read from a record. -/
theorem fresh_furnished : furnished.Fresh :=
  Or.inr ⟨.object [("type", .string "directory"), ("children", .object
    [("a", .object [("type", .string "directory"), ("children", .object
        [("f", .object [("type", .string "file"), ("content", .string "x")])])]),
      ("c", .object [("type", .string "directory")])])], rfl⟩

/-- The volume when its directory is to be moved. -/
def furnishedLater : Volume := (furnished.serve []).2.atClock 1

/-- The volume with its directory moved into the empty one. -/
def rearranged : Volume := (furnishedLater.perform "/" (.move "a" "c")).2

/-- A directory that is moved into another one takes its file along, and both come back. -/
theorem relocates_into_directory :
    (furnishedLater.perform "/" (.move "a" "c")).1 = .ok () ∧
      furnishedLater.tree.Moved ["a"] ["c", "a"] rearranged.tree ∧
      ((rearranged.atClock 2).perform "/c" (.move "a" "../a")).1 = .ok () ∧
        ∀ q, ((rearranged.atClock 2).perform "/c" (.move "a" "../a")).2.tree.find? q =
            furnishedLater.tree.find? q ∧
          ((rearranged.atClock 2).perform "/c" (.move "a" "../a")).2.tree.item? q =
            furnishedLater.tree.item? q := by
  have hok : (furnishedLater.perform "/" (.move "a" "c")).1 = .ok () := rfl
  have hsrc : Path.resolve "a" "/" = ["a"] := rfl
  have hdst : Edit.target "/" "a" "c" furnishedLater.tree.item? = ["c", "a"] := rfl
  have hfree : furnishedLater.tree.item? ["c", "a"] = none := rfl
  have hback : Path.resolve "a" "/c" = ["c", "a"] ∧ Path.resolve "../a" "/c" = ["a"] := by
    decide +kernel
  obtain ⟨-, hmoved⟩ := relocates_one_subtree fresh_furnished [] 1 hok
  change Edit.target "/" "a" "c" furnishedLater.tree.item? ≠ _ →
    furnishedLater.tree.Moved _ _ rearranged.tree ∧ _ at hmoved
  rw [hdst, hsrc] at hmoved
  obtain ⟨hthere, hagain⟩ := hmoved (by decide)
  exact ⟨hok, hthere, hagain hfree 2 "/c" "a" "../a" hback.1 hback.2⟩

end TreeShell.Volume
