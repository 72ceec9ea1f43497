import TreeShell.Proofs.Climbing
import TreeShell.Proofs.Completion
import TreeShell.Proofs.Session.Operands
import TreeShell.Proofs.Volume.Moving
import TreeShell.Proofs.Volume.Units
import TreeShell.Proofs.Volume.Writing

/-!
# Copies into directories

A file that is copied into a directory lands at the path of the directory with a slash and the name
of the file behind it. The name is the last segment of the source as it leads from the root, and
slashes at the end of the destination are left out before. So the copy lands where a move takes the
file, unless the source leads to the root from the root, as dots do, or the destination is the empty
text.
-/

namespace TreeShell

open TreeShell.Action TreeShell.Path

namespace Path

variable {path cwd : String}

theorem hasStart_slash_of_append (h : path ≠ "") (tail : String) :
    Text.hasStart (Text.withoutEndSlashes path ++ ("/" ++ tail)) "/" = Text.hasStart path "/" := by
  obtain ⟨k, hk⟩ := Text.exists_append_replicate '/' path.toList
  have hpath : path.toList ≠ [] := mt String.toList_eq_nil_iff.mp h
  have hslash : "/".toList = ['/'] := rfl
  rw [Bool.eq_iff_iff, Text.hasStart_iff, Text.hasStart_iff, String.toList_append,
    String.toList_append, Text.withoutEndSlashes, String.toList_ofList, hslash]
  generalize Text.trimEndOf '/' path.toList = kept at hk
  rw [hk]
  cases kept with
  | cons c cs =>
    simp only [List.cons_append, List.nil_append, List.cons.injEq, exists_and_left, exists_eq',
      and_true]
  | nil =>
    -- only slashes: there is one of them at least
    cases k with
    | zero => exact absurd hk hpath
    | succ k => simp [List.replicate_succ]

/-- What stands behind the slashes at the end of a path leads on from where the path leads; behind
the empty text it begins at the root. -/
theorem resolve_append_slash (path tail cwd : String) :
    resolve (Text.withoutEndSlashes path ++ ("/" ++ tail)) cwd =
      (parts tail).foldl step (if path = "" then [] else resolve path cwd) := by
  by_cases h : path = ""
  · have hstart : Text.hasStart (Text.withoutEndSlashes "" ++ ("/" ++ tail)) "/" = true :=
      Text.hasStart_iff.mpr ⟨tail.toList, by rw [String.toList_append, String.toList_append]; rfl⟩
    rw [if_pos h, h, resolve, if_pos hstart, parts_append, List.foldl_append]
    rfl
  · obtain ⟨k, hk⟩ := Text.exists_append_replicate '/' path.toList
    have hwalk : ∀ p, (parts (Text.withoutEndSlashes path)).foldl step p =
        (parts path).foldl step p := by
      intro p
      rw [parts, parts, Text.withoutEndSlashes, String.toList_ofList]
      nth_rewrite 2 [hk]
      rw [foldl_step_parts_slashes]
    rw [if_neg h, resolve, hasStart_slash_of_append h, parts_append, List.foldl_append, hwalk,
      ← resolve]

/-- A path that leads to an entry from the root leads to an entry with the same name from
everywhere. -/
theorem getLast?_resolve (h : resolve path "/" ≠ []) (cwd : String) :
    (resolve path cwd).getLast? = (resolve path "/").getLast? := by
  by_cases hstart : Text.hasStart path "/" = true
  · rw [resolve_of_hasStart hstart]
  · rw [resolve_of_relative hstart, List.getLast?_append_of_ne_nil _ h]

end Path

namespace Utility

variable {source destination : String} {ctx : Context} {j : Job} {content : Content}

/-! ## Where a copy lands -/

/-- A copy into a directory lands in it under the last segment of the source as it leads from the
root, or on the directory itself if there is none. -/
theorem resolve_landingPath (destination source cwd : String) :
    resolve (landingPath destination source true) cwd =
      (if destination = "" then [] else resolve destination cwd) ++
        (resolve source "/").getLast?.toList := by
  rw [landingPath, if_pos rfl, String.append_assoc, resolve_append_slash]
  cases hlast : (resolve source "/").getLast? with
  | none =>
    rw [Option.toList_none, List.append_nil]
    rfl
  | some name =>
    have hname : IsProper name := proper_resolve_root source name (List.mem_of_getLast? hlast)
    rw [Option.getD_some, parts_of_isProper hname, List.foldl_cons, List.foldl_nil,
      step_proper hname, Option.toList_some]

/-- A copy of an entry lands under its name in the directory just if the source leads to an entry
from the root too, and the destination is not empty, or the working directory is the root. -/
theorem resolve_landingPath_eq_iff {cwd : String} :
    resolve (landingPath destination source true) cwd =
        resolve destination cwd ++ [nameOf (resolve source cwd)] ↔
      resolve source "/" ≠ [] ∧ (destination ≠ "" ∨ base cwd = []) := by
  have hempty : resolve "" cwd = base cwd := rfl
  rw [resolve_landingPath]
  by_cases hroot : resolve source "/" = []
  · refine iff_of_false (fun he => ?_) fun hno => hno.1 hroot
    have hlength := congrArg List.length he
    rw [hroot, List.getLast?_nil, Option.toList_none, List.append_nil, List.length_append,
      List.length_singleton] at hlength
    split at hlength
    · rw [List.length_nil] at hlength
      omega
    · omega
  · obtain ⟨name, hname⟩ := Option.ne_none_iff_exists'.mp (mt List.getLast?_eq_none_iff.mp hroot)
    rw [and_iff_right hroot, nameOf, getLast?_resolve hroot cwd, hname, Option.getD_some,
      Option.toList_some, List.append_cancel_right_eq]
    by_cases hd : destination = ""
    · rw [if_pos hd, hd, hempty, or_iff_right (fun hne => hne rfl), eq_comm]
    · rw [if_neg hd]
      exact iff_of_true rfl (.inl hd)

/-! ## What is done -/

/-- To do something with sources and a destination is to do it for one source after another, if
there is only one or the destination is a directory. -/
theorem result_withDestination {sources : List String} (hhelp : ctx.flag ["help"] = false)
    (hoperands : ctx.arguments = sources ++ [destination]) (hne : sources ≠ [])
    (hdirectory : 1 < sources.length →
      j.session.volume.tree.isDirectory destination ctx.cwd = true) (name : String)
    (action : Bool → String → String → Action Unit) :
    result (withDestination ctx name action) j =
      result (each (fun source => orComplain ctx (fun e => name ++ ": " ++ e.message)
        (action (j.session.volume.tree.isDirectory destination ctx.cwd) source destination))
          sources) j := by
  have hsources : sourcesAndDestination? ctx.arguments = some (sources, destination) := by
    have hlength : 0 < sources.length := List.length_pos_iff.mpr hne
    rw [hoperands, sourcesAndDestination?, List.getLast?_concat, List.dropLast_concat,
      List.length_append, List.length_singleton]
    exact if_neg (by omega)
  have htarget : ¬ (decide (1 < sources.length) &&
      !j.session.volume.tree.isDirectory destination ctx.cwd) = true := by
    simpa using hdirectory
  simp only [withDestination, hhelp, hsources, Bool.false_eq_true, if_false]
  rw [result_bind, result_session]
  dsimp only
  rw [if_neg htarget]

/-- What comes of a copy of a file into a directory. -/
theorem result_cp (hhelp : ctx.flag ["help"] = false)
    (hoperands : ctx.arguments = [source, destination])
    (hdirectory : j.session.volume.tree.isDirectory destination ctx.cwd = true)
    (hcontent : j.session.volume.tree.content source ctx.cwd = .ok content) :
    let write := Edit.write (landingPath destination source true) content false
    ((j.session.volume.perform ctx.cwd write).1 = .ok () →
        result (cp ctx) j = (.ok success, j.edit ctx.cwd write)) ∧
      ((j.session.volume.perform ctx.cwd write).1 ≠ .ok () →
        (result (cp ctx) j).1 ≠ .ok success) := by
  intro write
  have hcopy : result (do
      let content ← ask fun t => t.content source ctx.cwd
      edit ctx.cwd (.write (landingPath destination source true) content false)) j =
        result (edit ctx.cwd write) j := by
    rw [result_bind, result_ask, hcontent]
  have hsources : ctx.arguments = [source] ++ [destination] := hoperands
  rw [cp, result_withDestination hhelp hsources (List.cons_ne_nil _ _) fun _ => hdirectory,
    result_each_singleton, hdirectory, result_orComplain, hcopy, result_edit]
  constructor
  · intro hok
    rw [hok]
    rfl
  · intro hno
    generalize (j.session.volume.perform ctx.cwd write).1 = outcome at hno
    cases outcome with
    | ok a => exact absurd rfl hno
    | error e =>
      dsimp only
      cases Fault.ofPathError e with
      | path e =>
        have hreport : (result (do complain ctx ("cp" ++ ": " ++ e.message); return false)
            (j.edit ctx.cwd write)).1 ≠ .ok true := result_complain_ne_true _ _
        dsimp only
        generalize result (do complain ctx _; return false) _ = reported at hreport
        obtain ⟨fault | done, j'⟩ := reported
        · exact fun he => nomatch he
        · cases done with
          | true => exact absurd rfl hreport
          | false => exact fun he => nomatch he
      | _ => exact fun he => nomatch he

end Utility

namespace Volume

variable {v : Volume} {cwd source destination : String}

/-- A file that is moved into a directory goes there under its name, unless a directory is in its
place. -/
theorem moves_into (h : v.tree.WellFormed) (hsource : v.tree.item?.HasFile (resolve source cwd))
    (hdirectory : v.tree.item?.HasDirectory (resolve destination cwd)) :
    let target := resolve destination cwd ++ [nameOf (resolve source cwd)]
    Edit.target cwd source destination v.tree.item? = target ∧
      (¬ v.tree.item?.HasDirectory target →
        (v.perform cwd (.move source destination)).1 = .ok () ∧
          (v.perform cwd (.move source destination)).2.tree.find? target =
            v.tree.find? (resolve source cwd)) := by
  intro target
  have htarget : Edit.target cwd source destination v.tree.item? = target := by
    obtain ⟨item, hitem, hkind⟩ := hdirectory
    rw [Edit.target, PathMap.landing, hitem]
    exact if_pos hkind
  refine ⟨htarget, fun hfree => ?_⟩
  have hnotAbove : ∀ q, q <+: resolve destination cwd → q ≠ resolve source cwd := by
    rintro q hq rfl
    obtain ⟨d, hd⟩ := Tree.hasDirectory_iff.mp hdirectory
    exact (hd.hasDirectory_of_prefix hq).not_hasFile hsource
  have hpermitted : (Edit.move source destination).Permitted cwd v.tree.item? := by
    have hthere : v.tree.item? (resolve source cwd) ≠ none := by
      obtain ⟨item, hitem, -⟩ := hsource
      rw [hitem]
      exact Option.some_ne_none item
    refine ⟨(hnotAbove [] List.nil_prefix).symm, hthere, ?_⟩
    rw [htarget]
    by_cases hsame : target = resolve source cwd
    · exact .inl hsame
    · refine .inr ⟨fun hbelow => ?_, PathMap.hasParent_concat_iff.mpr hdirectory, hfree,
        fun hdir => absurd hsource hdir.not_hasFile⟩
      rcases List.prefix_concat_iff.mp hbelow with he | hq
      · exact hsame he.symm
      · exact hnotAbove _ hq rfl
  have hok := (perform_eq_ok_iff h _ _).mpr hpermitted
  obtain ⟨-, -, hidle, hmoved⟩ := moved_of_perform h hok
  rw [htarget] at hidle hmoved
  refine ⟨hok, ?_⟩
  by_cases hsame : target = resolve source cwd
  · rw [hidle hsame, hsame]
  · simpa using ((hmoved hsame).taken []).1

end Volume

namespace Utility

variable {source destination : String} {ctx : Context} {j : Job} {content : Content}

/-- A file that is copied into a directory, from any tree and with any working directory, lands
where a move takes it just if the source leads to an entry from the root too, and the destination is
not empty, or the working directory is the root. Where it lands, it is put, and nothing else is
changed, unless a directory is there: then the copy fails. -/
theorem copies_where_it_lands (h : j.session.volume.tree.WellFormed)
    (hhelp : ctx.flag ["help"] = false) (hoperands : ctx.arguments = [source, destination])
    (hsource : j.session.volume.tree.content source ctx.cwd = .ok content)
    (hdirectory : j.session.volume.tree.isDirectory destination ctx.cwd = true) :
    let v := j.session.volume
    let target := resolve destination ctx.cwd ++ [nameOf (resolve source ctx.cwd)]
    let landing := resolve (landingPath destination source true) ctx.cwd
    (Edit.target ctx.cwd source destination v.tree.item? = target ∧
        (¬ v.tree.item?.HasDirectory target →
          (v.perform ctx.cwd (.move source destination)).1 = .ok () ∧
            (v.perform ctx.cwd (.move source destination)).2.tree.find? target =
              v.tree.find? (resolve source ctx.cwd))) ∧
      (landing = target ↔
        resolve source "/" ≠ [] ∧ (destination ≠ "" ∨ base ctx.cwd = [])) ∧
      (¬ v.tree.item?.HasDirectory landing → ∃ v', v.Puts landing content v' ∧
        result (cp ctx) j = (.ok success, j.mapSession fun s => { s with volume := v' })) ∧
      (v.tree.item?.HasDirectory landing → (result (cp ctx) j).1 ≠ .ok success) := by
  intro v target landing
  obtain ⟨hdone, hrefused⟩ := result_cp hhelp hoperands hdirectory hsource
  have hdir : v.tree.item?.HasDirectory (resolve destination ctx.cwd) := by
    rw [Tree.isDirectory_eq] at hdirectory
    exact PathMap.hasDirectory_iff_any.mpr hdirectory
  have hfile : v.tree.item?.HasFile (resolve source ctx.cwd) :=
    Tree.isFile_iff.mp (Tree.isFile_iff_content.mpr ⟨content, hsource⟩)
  refine ⟨Volume.moves_into h hfile hdir, resolve_landingPath_eq_iff, fun hfree => ?_,
    fun hthere => ?_⟩
  · have hbase : v.tree.item?.HasDirectory
        (if destination = "" then [] else resolve destination ctx.cwd) := by
      split
      · exact Tree.hasDirectory_iff.mpr ⟨_, h.directoryAt_root⟩
      · exact hdir
    have hlanding := resolve_landingPath destination source ctx.cwd
    change landing = _ at hlanding
    have hparent : v.tree.item?.HasParent landing := by
      rw [hlanding] at hfree ⊢
      cases hlast : (resolve source "/").getLast? with
      | none =>
        rw [hlast, Option.toList_none, List.append_nil] at hfree
        exact absurd hbase hfree
      | some name => exact PathMap.hasParent_concat_iff.mpr hbase
    obtain ⟨v', hv', hputs⟩ := Volume.exists_puts h hparent hfree (PathMap.written_over content _)
    refine ⟨v', hputs, ?_⟩
    rw [hdone (by rw [hv']), Job.edit, Job.mapSession, hv']
    rfl
  · exact hrefused fun hok => ((Volume.perform_eq_ok_iff h _ _).mp hok).2.1 hthere

/-- A file is copied into a directory that is told by dots and a slash at the end. -/
theorem copies_beside :
    ∃ v', Volume.furnished.Puts ["c", "f"] (.string "x") v' ∧
      result (cp (given ["./f", "../c/"] "/a")) (jobOn Volume.furnished) =
        (.ok success, (jobOn Volume.furnished).mapSession fun s => { s with volume := v' }) := by
  have hwellFormed : (jobOn Volume.furnished).session.volume.tree.WellFormed :=
    Volume.fresh_furnished.wellFormed
  have hhelp : (given ["./f", "../c/"] "/a").flag ["help"] = false := rfl
  have hoperands : (given ["./f", "../c/"] "/a").arguments = ["./f", "../c/"] := rfl
  have hsource : Volume.furnished.tree.content "./f" "/a" = .ok (.string "x") := rfl
  have hdirectory : Volume.furnished.tree.isDirectory "../c/" "/a" = true := by decide +kernel
  have hlanding : resolve (landingPath "../c/" "./f" true) (given ["./f", "../c/"] "/a").cwd =
      ["c", "f"] := by decide +kernel
  obtain ⟨-, -, hput, -⟩ :=
    copies_where_it_lands hwellFormed hhelp hoperands hsource hdirectory
  rw [hlanding] at hput
  exact hput (PathMap.not_hasDirectory_of_none rfl)

/-- Copied to the empty path, a file lands in the root, where a move takes it into the working
directory. A file that is the working directory is not copied at all. -/
theorem copies_elsewhere :
    (Volume.furnished.tree.content "../a/f" "/c" = .ok (.string "x") ∧
      Volume.furnished.tree.isDirectory "" "/c" = true ∧
      resolve "" "/c" ++ [nameOf (resolve "../a/f" "/c")] = ["c", "f"] ∧
      Volume.furnished.tree.item? ["c", "f"] = none ∧
      (result (cp (given ["../a/f", ""] "/c")) (jobOn Volume.furnished)).2.session.volume.tree.item?
        ["c", "f"] = none) ∧
    Volume.furnished.tree.content "." "/a/f" = .ok (.string "x") ∧
      Volume.furnished.tree.isDirectory "/c" "/a/f" = true ∧
      resolve "/c" "/a/f" ++ [nameOf (resolve "." "/a/f")] = ["c", "f"] ∧
      (result (cp (given [".", "/c"] "/a/f")) (jobOn Volume.furnished)).1 = .ok failure :=
  ⟨⟨rfl, by decide +kernel, by decide +kernel, rfl, rfl⟩, rfl, by decide +kernel, by decide +kernel,
    rfl⟩

end Utility

end TreeShell
