import Mathlib.Data.List.Infix
import TreeShell.Path

/-!
# Places and the paths to them

A segment is proper if it can stand between two slashes and mean an entry: it is not empty, no dot,
no two dots, and holds no slash. A place of proper segments is written as a path that leads back to
it, whatever the working directory, and a path that goes on behind the path of a place leads to a
place below it.
-/

namespace TreeShell

namespace Text

variable {sep : Char}

/-- A text that begins with the separator has an empty part in front. -/
theorem splitOn_cons_self (cs : List Char) : splitOn sep (sep :: cs) = [] :: splitOn sep cs := by
  rw [splitOn, splitOn, splitWhere, if_pos (beq_self_eq_true sep)]

/-- Another character belongs to the first part. -/
theorem splitOn_cons_of_ne {c : Char} (h : c ≠ sep) (cs : List Char) :
    ∃ w ws, splitOn sep cs = w :: ws ∧ splitOn sep (c :: cs) = (c :: w) :: ws := by
  obtain ⟨w, ws, hw⟩ := List.exists_cons_of_ne_nil (splitWhere_ne_nil (· == sep) cs)
  refine ⟨w, ws, hw, ?_⟩
  rw [splitOn, splitWhere, if_neg (by simpa using h), hw]

/-- A text without a character to cut at is one piece. -/
theorem splitWhere_of_all_not {p : Char → Bool} {cs : List Char} (h : ∀ c ∈ cs, p c = false) :
    splitWhere p cs = [cs] := by
  induction cs with
  | nil => rfl
  | cons c cs ih =>
    have hc : ¬ p c = true := ne_true_of_eq_false (h c List.mem_cons_self)
    rw [splitWhere, if_neg hc, ih fun d hd => h d (List.mem_cons_of_mem c hd)]

/-- At a character to cut at, a text is cut into the pieces before it and the pieces after it. -/
theorem splitWhere_append {p : Char → Bool} {c : Char} (h : p c = true) (cs ds : List Char) :
    splitWhere p (cs ++ c :: ds) = splitWhere p cs ++ splitWhere p ds := by
  induction cs with
  | nil =>
    have hcons : splitWhere p (c :: ds) = [] :: splitWhere p ds := if_pos h
    rw [List.nil_append, hcons, splitWhere, List.singleton_append]
  | cons d cs ih =>
    rw [List.cons_append, splitWhere, splitWhere, ih]
    obtain ⟨w, ws, hw⟩ := List.exists_cons_of_ne_nil (splitWhere_ne_nil p cs)
    split
    · rw [List.cons_append]
    · rw [hw, List.cons_append]
      rfl

/-- A text without the separator is one piece. -/
theorem splitOn_of_not_mem {cs : List Char} (h : sep ∉ cs) : splitOn sep cs = [cs] :=
  splitWhere_of_all_not fun _ hc => beq_eq_false_iff_ne.mpr fun he => h (he ▸ hc)

/-- A text is cut at a separator into the pieces before it and the pieces after it. -/
theorem splitOn_append (cs ds : List Char) :
    splitOn sep (cs ++ sep :: ds) = splitOn sep cs ++ splitOn sep ds :=
  splitWhere_append (p := (· == sep)) (beq_self_eq_true sep) cs ds

/-- No piece holds the separator. -/
theorem not_mem_of_mem_splitOn {cs w : List Char} (h : w ∈ splitOn sep cs) : sep ∉ w := by
  induction cs generalizing w with
  | nil =>
    rw [List.mem_singleton.mp h]
    exact List.not_mem_nil
  | cons c cs ih =>
    by_cases hc : c = sep
    · rw [hc, splitOn_cons_self] at h
      rcases List.mem_cons.mp h with rfl | h
      · exact List.not_mem_nil
      · exact ih h
    · obtain ⟨v, vs, hv, hcons⟩ := splitOn_cons_of_ne hc cs
      rw [hcons] at h
      rw [hv] at ih
      rcases List.mem_cons.mp h with rfl | h
      · rw [List.mem_cons, not_or]
        exact ⟨Ne.symm hc, ih List.mem_cons_self⟩
      · exact ih (List.mem_cons_of_mem v h)

/-- A text that does not end with a character keeps all of its characters when that one is taken off
its end. -/
theorem trimEndOf_of_getLast?_ne {c : Char} {cs : List Char} (h : cs.getLast? ≠ some c) :
    trimEndOf c cs = cs := by
  induction cs with
  | nil => rfl
  | cons d cs ih =>
    cases cs with
    | nil =>
      have hne : d ≠ c := fun he => h (congrArg some he)
      rw [trimEndOf, trimEndOf]
      dsimp only
      rw [if_neg hne]
    | cons e cs =>
      rw [List.getLast?_cons_cons] at h
      rw [trimEndOf, ih h]

/-- What is taken off the end of a text is one character as often as it stands there. -/
theorem exists_append_replicate (c : Char) (cs : List Char) :
    ∃ k, cs = trimEndOf c cs ++ List.replicate k c := by
  induction cs with
  | nil => exact ⟨0, rfl⟩
  | cons d cs ih =>
    obtain ⟨k, hk⟩ := ih
    rw [trimEndOf]
    split
    · next hnil =>
      rw [hnil, List.nil_append] at hk
      by_cases hd : d = c
      · exact ⟨k + 1, by rw [if_pos hd, hd, hk]; rfl⟩
      · exact ⟨k, by rw [if_neg hd, hk]; rfl⟩
    · exact ⟨k, by rw [List.cons_append, ← hk]⟩

/-- A text has a start if it goes on from it. -/
theorem hasStart_iff {s start : String} :
    hasStart s start = true ↔ ∃ rest, s.toList = start.toList ++ rest := by
  rw [hasStart, startsWith, Option.isSome_iff_exists]
  simp only [dropStart?_eq_some_iff]

end Text

namespace Path

/-- A segment that stands for an entry wherever it is met in a path. -/
structure IsProper (segment : String) : Prop where
  ne_empty : segment ≠ ""
  ne_dot : segment ≠ "."
  ne_dots : segment ≠ ".."
  no_slash : '/' ∉ segment.toList

/-- A proper name is neither empty nor dots, and has no slash. -/
theorem isProper_iff {segment : String} :
    IsProper segment ↔
      segment ≠ "" ∧ segment ≠ "." ∧ segment ≠ ".." ∧ '/' ∉ segment.toList :=
  ⟨fun h => ⟨h.ne_empty, h.ne_dot, h.ne_dots, h.no_slash⟩, fun h => ⟨h.1, h.2.1, h.2.2.1, h.2.2.2⟩⟩

instance : DecidablePred IsProper := fun _ => decidable_of_iff _ isProper_iff.symm

variable {p q : Segments} {path cwd : String}

/-! ## Steps -/

/-- A proper name leads one step down. -/
theorem step_proper {segment : String} (h : IsProper segment) (p : Segments) :
    step p segment = p ++ [segment] := by
  have hstay : ¬ (segment = "" ∨ segment = ".") := not_or.mpr ⟨h.ne_empty, h.ne_dot⟩
  rw [step, if_neg hstay, if_neg h.ne_dots]

/-- Proper segments lead down, one after another. -/
theorem foldl_step_proper (h : ∀ s ∈ q, IsProper s) (p : Segments) :
    q.foldl step p = p ++ q := by
  induction q generalizing p with
  | nil => simp
  | cons s q ih =>
    have hrest : ∀ s' ∈ q, IsProper s' := fun s' hs => h s' (List.mem_cons_of_mem s hs)
    rw [List.foldl_cons, step_proper (h s List.mem_cons_self), ih hrest]
    simp

/-- What holds of the segments of a place, and of each part that can lead down, holds of the
segments of the place that the parts lead to. -/
theorem forall_mem_foldl_step {P : String → Prop} {parts : List String} (hp : ∀ s ∈ p, P s)
    (hparts : ∀ s ∈ parts, s ≠ "" → s ≠ "." → s ≠ ".." → P s) : ∀ s ∈ parts.foldl step p, P s := by
  induction parts generalizing p with
  | nil => exact hp
  | cons part parts ih =>
    refine ih ?_ fun s hs => hparts s (List.mem_cons_of_mem part hs)
    unfold step
    split
    · exact hp
    · next hstay =>
      rw [not_or] at hstay
      split
      · exact fun s hs => hp s (List.dropLast_subset p hs)
      · next hdots =>
        intro s hs
        rcases List.mem_append.mp hs with hs | hs
        · exact hp s hs
        · rw [List.mem_singleton.mp hs]
          exact hparts part List.mem_cons_self hstay.1 hstay.2 hdots

/-- Whatever parts are walked from a place of proper segments, the place that they lead to has
proper segments. -/
theorem proper_foldl_step {parts : List String} (hp : ∀ s ∈ p, IsProper s)
    (hparts : ∀ s ∈ parts, '/' ∉ s.toList) : ∀ s ∈ parts.foldl step p, IsProper s :=
  forall_mem_foldl_step hp fun s hs hne hdot hdots => ⟨hne, hdot, hdots, hparts s hs⟩

/-- No part of a path has a slash. -/
theorem not_mem_of_mem_parts {part : String} (h : part ∈ parts path) : '/' ∉ part.toList := by
  obtain ⟨w, hw, rfl⟩ := List.mem_map.mp h
  rw [String.toList_ofList]
  exact Text.not_mem_of_mem_splitOn hw

/-- A path leads to a place of proper segments from a working directory of such, and from anywhere
if it begins with a slash. -/
theorem proper_resolve (h : Text.hasStart path "/" = true ∨ ∀ s ∈ base cwd, IsProper s) :
    ∀ s ∈ resolve path cwd, IsProper s := by
  refine proper_foldl_step ?_ fun s hs => not_mem_of_mem_parts hs
  split
  · exact fun s hs => absurd hs List.not_mem_nil
  · next hrelative => exact h.resolve_left hrelative

/-- From the root every path leads to a place of proper segments. -/
theorem proper_resolve_root (path : String) : ∀ s ∈ resolve path "/", IsProper s := by
  have hbase : base "/" = [] := by decide
  refine proper_resolve (Or.inr ?_)
  rw [hbase]
  exact fun s hs => absurd hs List.not_mem_nil

/-! ## Paths that go on -/

/-- From the root a path leads along its parts. -/
theorem resolve_root (path : String) : resolve path "/" = (parts path).foldl step [] := by
  have hbase : base "/" = [] := by decide
  rw [resolve, hbase, ite_self]

/-- A path that begins with a slash leads to the same place from everywhere. -/
theorem resolve_of_hasStart (h : Text.hasStart path "/" = true) (cwd : String) :
    resolve path cwd = resolve path "/" := by
  rw [resolve, resolve, if_pos h, if_pos h]

/-- A path behind a slash adds its parts. -/
theorem parts_append (path other : String) :
    parts (path ++ ("/" ++ other)) = parts path ++ parts other := by
  rw [parts, String.toList_append, String.toList_append, parts, parts, ← List.map_append,
    ← Text.splitOn_append]
  rfl

/-- Slashes at the end of a path lead nowhere. -/
theorem foldl_step_parts_slashes (cs : List Char) (k : Nat) (p : Segments) :
    ((Text.splitOn '/' (cs ++ List.replicate k '/')).map String.ofList).foldl step p =
      ((Text.splitOn '/' cs).map String.ofList).foldl step p := by
  induction k with
  | zero => rw [List.replicate_zero, List.append_nil]
  | succ k ih =>
    have hlast : Text.splitOn '/' [] = [[]] := rfl
    rw [List.replicate_succ', ← List.append_assoc, Text.splitOn_append, hlast, List.map_append,
      List.foldl_append, ih]
    rfl

/-- Slashes at the end of a path lead nowhere else. -/
theorem resolve_withoutEndSlashes (path : String) :
    resolve (Text.withoutEndSlashes path) "/" = resolve path "/" := by
  obtain ⟨k, hk⟩ := Text.exists_append_replicate '/' path.toList
  rw [resolve_root, resolve_root, parts, parts, Text.withoutEndSlashes, String.toList_ofList]
  nth_rewrite 2 [hk]
  rw [foldl_step_parts_slashes]

/-- A proper name is one part. -/
theorem parts_of_isProper {name : String} (h : IsProper name) : parts name = [name] := by
  rw [parts, Text.splitOn_of_not_mem h.no_slash, List.map_singleton, String.ofList_toList]

/-- A path with a slash and a name behind it leads to the entry with that name. -/
theorem resolve_below {name : String} (hname : IsProper name) (path : String) :
    resolve (path ++ ("/" ++ name)) "/" = resolve path "/" ++ [name] := by
  rw [resolve_root, parts_append, parts_of_isProper hname, List.foldl_append, ← resolve_root,
    List.foldl_cons, List.foldl_nil, step_proper hname]

/-- A path with a name behind it leads to the entry with that name. -/
theorem resolve_entry {name : String} (hname : IsProper name) (path : String) :
    resolve (Text.withoutEndSlashes path ++ ("/" ++ name)) "/" = resolve path "/" ++ [name] := by
  rw [resolve_below hname, resolve_withoutEndSlashes]

/-- What comes behind a path does not change whether it begins with a slash. -/
theorem hasStart_append (h : path ≠ "") (rest : String) :
    Text.hasStart (path ++ rest) "/" = Text.hasStart path "/" := by
  rw [Bool.eq_iff_iff, Text.hasStart_iff, Text.hasStart_iff, String.toList_append]
  obtain ⟨c, cs, hcs⟩ := List.exists_cons_of_ne_nil (mt String.toList_eq_nil_iff.mp h)
  rw [hcs]
  constructor
  · rintro ⟨others, hothers⟩
    obtain ⟨rfl, -⟩ := List.cons.inj hothers
    exact ⟨cs, rfl⟩
  · rintro ⟨others, hothers⟩
    obtain ⟨rfl, rfl⟩ := List.cons.inj hothers
    exact ⟨_, rfl⟩

/-- A path that goes on behind a slash leads on from where its first part leads. -/
theorem resolve_joined_parts (h : path ≠ "") (rest cwd : String) :
    resolve (path ++ ("/" ++ rest)) cwd = (parts rest).foldl step (resolve path cwd) := by
  rw [resolve, hasStart_append h, parts_append, List.foldl_append, ← resolve]

/-- A slash behind a path leads nowhere. -/
theorem resolve_slash (h : path ≠ "") (cwd : String) :
    resolve (path ++ "/") cwd = resolve path cwd := by
  have hstay : ∀ p, step p "" = p := fun p => if_pos (Or.inl rfl)
  have hparts : parts "" = [""] := by decide
  have hjoined := resolve_joined_parts h "" cwd
  rw [String.append_empty, hparts, List.foldl_cons, List.foldl_nil, hstay] at hjoined
  exact hjoined

/-! ## The path of a place -/

/-- A path is written with a slash in front and between its names. -/
theorem toList_format (p : Segments) : (format p).toList = '/' :: (Text.join "/" p).toList := by
  rw [format, String.toList_append]
  rfl

/-- No path is written as the empty text. -/
theorem format_ne_empty (p : Segments) : format p ≠ "" := by
  intro he
  have hlist := toList_format p
  rw [he] at hlist
  cases hlist

/-- Names without slashes are cut apart again where they were joined. -/
theorem splitOn_join (hp : ∀ s ∈ p, '/' ∉ s.toList) (hne : p ≠ []) :
    Text.splitOn '/' (Text.join "/" p).toList = p.map String.toList := by
  induction p with
  | nil => exact absurd rfl hne
  | cons s p ih =>
    have hs : '/' ∉ s.toList := hp s List.mem_cons_self
    cases p with
    | nil =>
      rw [Text.join, String.intercalate_singleton, Text.splitOn_of_not_mem hs]
      rfl
    | cons s' p =>
      have hrest := ih (fun t ht => hp t (List.mem_cons_of_mem s ht)) (List.cons_ne_nil s' p)
      rw [Text.join] at hrest ⊢
      have hjoin : (String.intercalate "/" (s :: s' :: p)).toList =
          s.toList ++ '/' :: (String.intercalate "/" (s' :: p)).toList := by
        rw [String.intercalate_cons_cons, String.toList_append, String.toList_append,
          List.append_assoc]
        rfl
      rw [hjoin, Text.splitOn_append, Text.splitOn_of_not_mem hs, hrest]
      rfl

/-- What a path begins with, and then the segments of its place; the root has an empty part in
their stead. -/
theorem parts_format (hp : ∀ s ∈ p, '/' ∉ s.toList) :
    parts (format p) = "" :: if p = [] then [""] else p := by
  rw [parts, toList_format, Text.splitOn_cons_self, List.map_cons]
  split
  · next h =>
    rw [h]
    rfl
  · next h =>
    rw [splitOn_join hp h, List.map_map]
    have hid : String.ofList ∘ String.toList = id := funext fun s => String.ofList_toList
    rw [hid, List.map_id]

/-- The path of a place of proper segments leads to that place, whatever the working directory. -/
theorem resolve_format (hp : ∀ s ∈ p, IsProper s) (cwd : String) : resolve (format p) cwd = p := by
  have hstart : Text.hasStart (format p) "/" = true :=
    Text.hasStart_iff.mpr ⟨_, toList_format p⟩
  rw [resolve, if_pos hstart, parts_format fun s hs => (hp s hs).no_slash, List.foldl_cons]
  split
  · next h =>
    rw [h]
    rfl
  · exact foldl_step_proper hp []

/-- A working directory that is the path of a place stands for that place, even if dots are among
its segments. -/
theorem base_format_of_parts (hp : ∀ s ∈ p, s ≠ "" ∧ '/' ∉ s.toList) : base (format p) = p := by
  rw [base, parts_format fun s hs => (hp s hs).2, List.filter_cons_of_neg (by simp)]
  split
  · next h =>
    rw [h]
    rfl
  · rw [List.filter_eq_self]
    exact fun s hs => decide_eq_true (hp s hs).1

/-- A written path is a working directory with the same names. -/
theorem base_format (hp : ∀ s ∈ p, IsProper s) : base (format p) = p :=
  base_format_of_parts fun s hs => ⟨(hp s hs).ne_empty, (hp s hs).no_slash⟩

/-- From anywhere a path leads to segments that are neither empty nor hold a slash. -/
theorem parts_of_mem_resolve {s : String} (h : s ∈ resolve path cwd) : s ≠ "" ∧ '/' ∉ s.toList := by
  refine forall_mem_foldl_step (P := fun s => s ≠ "" ∧ '/' ∉ s.toList) ?_
    (fun part hpart hne _ _ => ⟨hne, not_mem_of_mem_parts hpart⟩) s h
  split
  · exact fun s hs => absurd hs List.not_mem_nil
  · intro s hs
    obtain ⟨hpart, hne⟩ := List.mem_filter.mp hs
    exact ⟨of_decide_eq_true hne, not_mem_of_mem_parts hpart⟩

/-- Whatever a path leads to, its path as a working directory stands for. -/
theorem base_format_resolve (path cwd : String) :
    base (format (resolve path cwd)) = resolve path cwd :=
  base_format_of_parts fun _ hs => parts_of_mem_resolve hs

/-- Different paths are written differently. -/
theorem format_injective (hp : ∀ s ∈ p, IsProper s) (hq : ∀ s ∈ q, IsProper s)
    (h : format p = format q) : p = q := by
  rw [← base_format hp, h, base_format hq]

/-- The path of a place that is not the root does not end with a slash. -/
theorem withoutEndSlashes_format (hp : ∀ s ∈ p, IsProper s) (hne : p ≠ []) :
    Text.withoutEndSlashes (format p) = format p := by
  have hlast : (format p).toList.getLast? ≠ some '/' := by
    intro hslash
    obtain ⟨cs, hcs⟩ := List.getLast?_eq_some_iff.mp hslash
    have hsplit := congrArg (Text.splitOn '/') hcs
    rw [Text.splitOn_append, toList_format, Text.splitOn_cons_self,
      splitOn_join (fun s hs => (hp s hs).no_slash) hne] at hsplit
    -- the last piece is empty, and it is the last segment
    have hmem : [] ∈ p.map String.toList := by
      have hend := congrArg List.getLast? hsplit
      have hempty : Text.splitOn '/' [] = [[]] := rfl
      have hne' : p.map String.toList ≠ [] := mt List.map_eq_nil_iff.mp hne
      rw [hempty, List.getLast?_concat, List.getLast?_cons, Option.some.injEq,
        List.getLast?_eq_some_getLast hne', Option.getD_some] at hend
      exact hend ▸ List.getLast_mem hne'
    obtain ⟨s, hs, hnil⟩ := List.mem_map.mp hmem
    exact (hp s hs).ne_empty (String.toList_eq_nil_iff.mp hnil)
  rw [Text.withoutEndSlashes, Text.trimEndOf_of_getLast?_ne hlast, String.ofList_toList]

/-- A path that goes on behind the path of a place and a slash leads to a place below it. -/
theorem prefix_of_hasStart (hp : ∀ s ∈ p, '/' ∉ s.toList) (hq : ∀ s ∈ q, '/' ∉ s.toList)
    (hne : p ≠ []) (h : Text.hasStart (format q) (format p ++ "/") = true) : p <+: q := by
  obtain ⟨rest, hrest⟩ := Text.hasStart_iff.mp h
  have hsplit := congrArg (Text.splitOn '/') hrest
  have hslash : (format p ++ "/").toList ++ rest = (format p).toList ++ '/' :: rest := by
    rw [String.toList_append, List.append_assoc]
    rfl
  rw [hslash, Text.splitOn_append, toList_format, toList_format, Text.splitOn_cons_self,
    Text.splitOn_cons_self, splitOn_join hp hne, List.cons_append, List.cons_inj_right] at hsplit
  by_cases hq' : q = []
  · -- the root is one empty piece: too few for a segment of `p` and what comes after it
    exfalso
    have hlen := congrArg List.length hsplit
    have hp' : p.length ≠ 0 := mt List.length_eq_zero_iff.mp hne
    have hrest' : (Text.splitOn '/' rest).length ≠ 0 :=
      mt List.length_eq_zero_iff.mp (Text.splitWhere_ne_nil _ rest)
    have hroot : (Text.splitOn '/' (Text.join "/" q).toList).length = 1 := by
      rw [hq']
      rfl
    rw [hroot, List.length_append, List.length_map] at hlen
    omega
  · rw [splitOn_join hq hq'] at hsplit
    have hmap := congrArg (List.map String.ofList) hsplit
    have hid : String.ofList ∘ String.toList = id := funext fun s => String.ofList_toList
    rw [List.map_append, List.map_map, List.map_map, hid, List.map_id, List.map_id] at hmap
    exact ⟨_, hmap.symm⟩

end Path

end TreeShell
