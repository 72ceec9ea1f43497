import Mathlib.Data.List.Induction
import Mathlib.Data.List.Nodup
import TreeShell.OrderedMap

/-!
# Laws of ordered maps

What a look-up finds after a change, and which keys and values a map lists. Everything that is later
proved about trees of inodes goes through these laws, never through the list of entries.
-/

namespace TreeShell.OrderedMap

variable {κ α : Type} [DecidableEq κ]

/-- A map finds under a key that was set the new value, and under any other what it found before. -/
theorem get?_set (m : OrderedMap κ α) (k k' : κ) (v : α) :
    (m.set k v).get? k' = if k' = k then some v else m.get? k' := by
  by_cases h : k' = k
  · rw [if_pos h, h, get?_set_self]
  · rw [if_neg h, get?_set_of_ne h]

/-- What is found after entries were put in was there before, or is one of them. -/
theorem get?_setAll_eq_some {m : OrderedMap κ α} {l : List (κ × α)} {k : κ} {v : α}
    (h : (m.setAll l).get? k = some v) : m.get? k = some v ∨ (k, v) ∈ l := by
  induction l generalizing m with
  | nil => exact .inl h
  | cons e l ih =>
    rcases ih h with hset | hmem
    · rw [get?_set] at hset
      split at hset
      · next hk =>
        rw [hk, ← Option.some.inj hset]
        exact .inr List.mem_cons_self
      · exact .inl hset
    · exact .inr (List.mem_cons_of_mem e hmem)

/-- Keys that are not set keep their values. -/
theorem get?_setAll_of_not_mem {m : OrderedMap κ α} {l : List (κ × α)} {k : κ}
    (h : k ∉ l.map Prod.fst) : (m.setAll l).get? k = m.get? k := by
  induction l generalizing m with
  | nil => rfl
  | cons e l ih =>
    rw [List.map_cons, List.mem_cons, not_or] at h
    exact (ih h.2).trans (get?_set_of_ne h.1 _ _)

/-- Each of some entries with different keys is found after they were put in. -/
theorem get?_setAll_of_mem {m : OrderedMap κ α} {l : List (κ × α)} {k : κ} {v : α}
    (hn : (l.map Prod.fst).Nodup) (h : (k, v) ∈ l) : (m.setAll l).get? k = some v := by
  induction l generalizing m with
  | nil => cases h
  | cons e l ih =>
    rw [List.map_cons, List.nodup_cons] at hn
    rcases List.mem_cons.mp h with rfl | hl
    · exact (get?_setAll_of_not_mem hn.1).trans (get?_set_self _ _ _)
    · exact ih hn.2 hl

/-- The map of entries with different keys finds each of them. -/
theorem get?_ofList_of_mem {l : List (κ × α)} {k : κ} {v : α} (hn : (l.map Prod.fst).Nodup)
    (h : (k, v) ∈ l) : (ofList l).get? k = some v :=
  get?_setAll_of_mem hn h

/-- A map finds nothing under a key that was erased, and under any other what it found before. -/
theorem get?_erase (m : OrderedMap κ α) (k k' : κ) :
    (m.erase k).get? k' = if k' = k then none else m.get? k' := by
  by_cases h : k' = k
  · rw [if_pos h, h, get?_erase_self]
  · rw [if_neg h, get?_erase_of_ne h]

/-- Erasing keys one after another takes out exactly these. -/
theorem get?_foldl_erase (m : OrderedMap κ α) (ks : List κ) (k : κ) :
    (ks.foldl erase m).get? k = if k ∈ ks then none else m.get? k := by
  induction ks generalizing m with
  | nil => simp
  | cons k' ks ih =>
    rw [List.foldl_cons, ih, get?_erase]
    by_cases h : k = k' <;> by_cases hk : k ∈ ks <;> simp [h, hk]

/-- An entry is found under its key if no other has the key. -/
theorem find?_eq_some_of_mem {k : κ} {v : α} {l : List (κ × α)} (hn : (l.map Prod.fst).Nodup)
    (h : (k, v) ∈ l) : find? k l = some v := by
  induction l with
  | nil => simp at h
  | cons e l ih =>
    rw [List.map_cons, List.nodup_cons] at hn
    rcases List.mem_cons.mp h with he | hl
    · simp [find?, ← he]
    · have hk : e.1 ≠ k := fun he => hn.1 (he ▸ List.mem_map_of_mem hl)
      rw [find?, if_neg hk]
      exact ih hn.2 hl

/-- What is found is an entry. -/
theorem mem_of_find?_eq_some {k : κ} {v : α} {l : List (κ × α)} (h : find? k l = some v) :
    (k, v) ∈ l := by
  induction l with
  | nil => simp [find?] at h
  | cons e l ih =>
    by_cases he : e.1 = k
    · rw [find?, if_pos he, Option.some.injEq] at h
      rw [← he, ← h]
      exact List.mem_cons_self
    · rw [find?, if_neg he] at h
      exact List.mem_cons_of_mem _ (ih h)

/-- In which order entries with different keys stand makes no difference to what is found. -/
theorem find?_perm {l l' : List (κ × α)} (hn : (l.map Prod.fst).Nodup) (h : l.Perm l') (k : κ) :
    find? k l = find? k l' := by
  have hn' : (l'.map Prod.fst).Nodup := (h.map Prod.fst).nodup_iff.mp hn
  refine Option.ext fun v => ⟨fun hv => ?_, fun hv => ?_⟩
  · exact find?_eq_some_of_mem hn' (h.mem_iff.mp (mem_of_find?_eq_some hv))
  · exact find?_eq_some_of_mem hn (h.mem_iff.mpr (mem_of_find?_eq_some hv))

/-- The entries of a map are what it finds. -/
theorem mem_entries_iff {m : OrderedMap κ α} {k : κ} {v : α} :
    (k, v) ∈ m.entries ↔ m.get? k = some v :=
  ⟨find?_eq_some_of_mem m.nodup, mem_of_find?_eq_some⟩

/-- The keys are what a value is found under. -/
theorem mem_keys_iff {m : OrderedMap κ α} {k : κ} : k ∈ m.keys ↔ ∃ v, m.get? k = some v := by
  rw [← not_iff_not, ← get?_eq_none_iff, Option.eq_none_iff_forall_ne_some, not_exists]

/-- The values are what is found under some key. -/
theorem mem_values_iff {m : OrderedMap κ α} {v : α} : v ∈ m.values ↔ ∃ k, m.get? k = some v := by
  simp only [values, List.mem_map, Prod.exists, exists_eq_right, mem_entries_iff]

/-- A map is empty just if nothing is found in it. -/
theorem isEmpty_iff {m : OrderedMap κ α} : m.isEmpty = true ↔ ∀ k, m.get? k = none := by
  rw [isEmpty, List.isEmpty_iff]
  constructor
  · intro h k
    rw [get?, h, find?]
  · intro h
    rw [List.eq_nil_iff_forall_not_mem]
    intro e he
    have hg := mem_entries_iff.mp he
    rw [h e.1] at hg
    cases hg

/-- A new key goes to the end, and its value with it. -/
theorem values_set_of_new {m : OrderedMap κ α} {k : κ} (h : k ∉ m.keys) (v : α) :
    (m.set k v).values = m.values ++ [v] := by
  rw [set, dif_neg h]
  simp [values]

/-- A known key keeps its place, so that no entry is added. -/
theorem size_set_of_mem {m : OrderedMap κ α} {k : κ} (h : k ∈ m.keys) (v : α) :
    (m.set k v).size = m.size := by
  have hk := congrArg List.length (keys_set m k v)
  rw [if_pos h, keys, keys, List.length_map, List.length_map] at hk
  exact hk

/-- A known key takes its entry with it when it is erased. -/
theorem size_erase_of_mem {m : OrderedMap κ α} {k : κ} (h : k ∈ m.keys) :
    (m.erase k).size + 1 = m.size := by
  have hnodup : m.keys.Nodup := m.nodup
  have hkeys : (m.erase k).keys = m.keys.erase k := by
    rw [hnodup.erase_eq_filter, keys, erase, map_fst_without]
    exact List.filter_congr fun k' _ => by by_cases hk : k' = k <;> simp [hk]
  have hlength := congrArg List.length hkeys
  have hpos := List.length_pos_of_mem h
  rw [List.length_erase_of_mem h, keys, keys, List.length_map, List.length_map] at hlength
  rw [keys, List.length_map] at hpos
  rw [size, size]
  omega

omit [DecidableEq κ] in
/-- Entries whose values are turned into others, if they can be, keep the order of their keys. -/
theorem map_fst_filterMap_sublist {β : Type} (f : κ × α → Option β) (l : List (κ × α)) :
    ((l.filterMap fun e => (f e).map (e.1, ·)).map Prod.fst).Sublist (l.map Prod.fst) := by
  induction l with
  | nil => exact .slnil
  | cons e l ih =>
    rw [List.filterMap_cons]
    cases hf : f e with
    | none => exact ih.cons _
    | some b => exact ih.cons_cons _

/-- A look-up in entries with different keys whose values are turned into others, if they can be. -/
theorem find?_filterMap {β : Type} (f : κ × α → Option β) {l : List (κ × α)}
    (hn : (l.map Prod.fst).Nodup) (k : κ) :
    find? k (l.filterMap fun e => (f e).map (e.1, ·)) = (find? k l).bind fun v => f (k, v) := by
  induction l with
  | nil => rfl
  | cons e l ih =>
    rw [List.map_cons, List.nodup_cons] at hn
    rw [List.filterMap_cons, find?]
    by_cases he : e.1 = k
    · subst he
      rw [if_pos rfl, Option.bind_some]
      cases hf : f e with
      | some b => exact if_pos rfl
      | none =>
        exact find?_eq_none_iff.mpr fun hmem =>
          hn.1 ((map_fst_filterMap_sublist f l).subset hmem)
    · rw [if_neg he, ← ih hn.2]
      cases f e with
      | some b => exact if_neg he
      | none => rfl

/-! ## Several entries at once -/

/-- To set entries of two lists is to set those of the first and then those of the second. -/
theorem setAll_append (m : OrderedMap κ α) (l l' : List (κ × α)) :
    m.setAll (l ++ l') = (m.setAll l).setAll l' :=
  List.foldl_append

/-- The last entry is set last. -/
theorem setAll_concat (m : OrderedMap κ α) (l : List (κ × α)) (e : κ × α) :
    m.setAll (l ++ [e]) = (m.setAll l).set e.1 e.2 :=
  setAll_append m l [e]

/-- The last of the entries with a key counts, or else what was there before. -/
theorem get?_setAll (m : OrderedMap κ α) (l : List (κ × α)) (k : κ) :
    (m.setAll l).get? k = (find? k l.reverse).or (m.get? k) := by
  induction l using List.reverseRecOn with
  | nil => rfl
  | append_singleton l e ih =>
    rw [setAll_concat, get?_set, ih, List.reverse_concat, find?]
    by_cases hk : e.1 = k
    · rw [if_pos hk, if_pos hk.symm, Option.some_or]
    · rw [if_neg hk, if_neg (Ne.symm hk)]

/-- Keys with another one behind them, unless it is there. -/
def addKey (ks : List κ) (k : κ) : List κ := if k ∈ ks then ks else ks ++ [k]

/-- The keys that are set come behind those that were there, each once. -/
theorem keys_setAll (m : OrderedMap κ α) (l : List (κ × α)) :
    (m.setAll l).keys = (l.map Prod.fst).foldl addKey m.keys := by
  induction l using List.reverseRecOn with
  | nil => rfl
  | append_singleton l e ih =>
    rw [setAll_concat, keys_set, ih, List.map_append, List.foldl_append]
    rfl

/-- No key is lost when others are added. -/
theorem mem_foldl_addKey {k : κ} {ks l : List κ} (h : k ∈ ks ∨ k ∈ l) :
    k ∈ l.foldl addKey ks := by
  induction l using List.reverseRecOn with
  | nil => exact h.resolve_right List.not_mem_nil
  | append_singleton l k' ih =>
    rw [List.foldl_append, List.foldl_cons, List.foldl_nil, addKey]
    have hlast : k = k' ∨ k ∈ l.foldl addKey ks := by
      rw [List.mem_append, List.mem_singleton, ← or_assoc] at h
      exact h.symm.imp_right ih
    split
    · next hthere => exact hlast.elim (fun he => he ▸ hthere) id
    · exact List.mem_append.mpr (hlast.symm.imp_right List.mem_singleton.mpr)

/-- No key comes from elsewhere. -/
theorem mem_of_mem_foldl_addKey {k : κ} {l : List κ} (h : k ∈ l.foldl addKey []) : k ∈ l := by
  induction l using List.reverseRecOn with
  | nil => exact h
  | append_singleton l k' ih =>
    rw [List.foldl_append, List.foldl_cons, List.foldl_nil, addKey] at h
    split at h
    · exact List.mem_append_left _ (ih h)
    · exact List.mem_append.mpr ((List.mem_append.mp h).imp_left ih)

/-- Keys that are added once each are added as often as they come. -/
theorem foldl_addKey_foldl (ks l : List κ) :
    (l.foldl addKey []).foldl addKey ks = l.foldl addKey ks := by
  induction l using List.reverseRecOn with
  | nil => rfl
  | append_singleton l k ih =>
    rw [List.foldl_append, List.foldl_append, List.foldl_cons, List.foldl_nil, List.foldl_cons,
      List.foldl_nil]
    by_cases hk : k ∈ l.foldl addKey []
    · have hthere : k ∈ l.foldl addKey ks :=
        mem_foldl_addKey (Or.inr (mem_of_mem_foldl_addKey hk))
      rw [addKey, if_pos hk, addKey, if_pos hthere, ih]
    · rw [addKey, if_neg hk, List.foldl_append, ih]
      rfl

/-- The entries are the keys with what is found under them. -/
theorem map_entries (m : OrderedMap κ α) :
    m.entries.map (fun e => (e.1, some e.2)) = m.keys.map fun k => (k, m.get? k) := by
  rw [keys, List.map_map]
  refine List.map_congr_left fun e he => ?_
  have hget : m.get? e.1 = some e.2 := mem_entries_iff.mp he
  rw [Function.comp_apply, hget]

/-- A map is told by its keys, in order, and what it finds under them. -/
theorem eq_of_keys {m m' : OrderedMap κ α} (hkeys : m.keys = m'.keys)
    (hget : ∀ k, m.get? k = m'.get? k) : m = m' := by
  have hentries : m.entries.map (fun e => (e.1, some e.2)) =
      m'.entries.map (fun e => (e.1, some e.2)) := by
    rw [map_entries, map_entries, hkeys]
    exact List.map_congr_left fun k _ => by rw [hget]
  have hinjective : Function.Injective fun e : κ × α => (e.1, some e.2) := by
    rintro ⟨k, v⟩ ⟨k', v'⟩ he
    simpa using he
  have heq : m.entries = m'.entries := List.map_injective_iff.mpr hinjective hentries
  cases m
  cases m'
  cases heq
  rfl

/-- The entries of a map are put in as what the map was made of. -/
theorem setAll_ofList (m : OrderedMap κ α) (l : List (κ × α)) :
    m.setAll (ofList l).entries = m.setAll l := by
  have hkeys : (ofList l).entries.map Prod.fst = (l.map Prod.fst).foldl addKey [] :=
    keys_setAll empty l
  refine eq_of_keys ?_ fun k => ?_
  · rw [keys_setAll, keys_setAll, hkeys, foldl_addKey_foldl]
  · -- no key of the map is listed twice, so that its last entry is its first
    have hfind : find? k (ofList l).entries.reverse = (ofList l).get? k := by
      have hnodup : ((ofList l).entries.reverse.map Prod.fst).Nodup := by
        rw [List.map_reverse, List.nodup_reverse]
        exact (ofList l).nodup
      refine Option.ext fun v => ?_
      rw [← mem_entries_iff, ← List.mem_reverse]
      exact ⟨mem_of_find?_eq_some, find?_eq_some_of_mem hnodup⟩
    have hget : (ofList l).get? k = find? k l.reverse := by
      rw [ofList, get?_setAll, get?_empty, Option.or_none]
    rw [get?_setAll, get?_setAll, hfind, hget]

end TreeShell.OrderedMap
