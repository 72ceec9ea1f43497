/-!
# Finite maps in insertion order

A map from keys to values that lists its keys in the order they were first put in. Putting a key
again keeps its place; erasing a key and putting it again moves it to the end. That no key is listed
twice is part of the type, so that looking a key up and finding its entry in the list agree.
-/

namespace TreeShell

/-- A finite map that remembers the order in which its keys were put in. -/
structure OrderedMap (κ α : Type) where
  /-- The keys with their values, the oldest key first. -/
  entries : List (κ × α)
  /-- No key is listed twice. -/
  nodup : (entries.map Prod.fst).Nodup
  deriving DecidableEq

namespace OrderedMap

variable {κ α : Type}

/-- The map without entries. -/
def empty : OrderedMap κ α := ⟨[], List.nodup_nil⟩

instance : EmptyCollection (OrderedMap κ α) := ⟨empty⟩

instance : Inhabited (OrderedMap κ α) := ⟨empty⟩

/-- The keys, the oldest first. -/
def keys (m : OrderedMap κ α) : List κ := m.entries.map Prod.fst

/-- The values, in the order of their keys. -/
def values (m : OrderedMap κ α) : List α := m.entries.map Prod.snd

/-- The number of keys. -/
def size (m : OrderedMap κ α) : Nat := m.entries.length

/-- Whether there is no key at all. -/
def isEmpty (m : OrderedMap κ α) : Bool := m.entries.isEmpty

section Keys

variable [DecidableEq κ]

/-- The value of a key in a list of entries. -/
def find? (k : κ) : List (κ × α) → Option α
  | [] => none
  | (k', v) :: rest => if k' = k then some v else find? k rest

/-- The entries with the value of `k` replaced, all else in place. -/
def replaced (k : κ) (v : α) : List (κ × α) → List (κ × α)
  | [] => []
  | (k', v') :: rest => (k', if k' = k then v else v') :: replaced k v rest

/-- The entries without those of `k`. -/
def without (k : κ) : List (κ × α) → List (κ × α)
  | [] => []
  | (k', v') :: rest => if k' = k then without k rest else (k', v') :: without k rest

theorem map_fst_replaced (k : κ) (v : α) (l : List (κ × α)) :
    (replaced k v l).map Prod.fst = l.map Prod.fst := by
  induction l with
  | nil => rfl
  | cons e l ih => simp [replaced, ih]

theorem map_fst_without (k : κ) (l : List (κ × α)) :
    (without k l).map Prod.fst = (l.map Prod.fst).filter (· ≠ k) := by
  induction l with
  | nil => rfl
  | cons e l ih =>
    by_cases h : e.1 = k
    · simpa [without, h] using ih
    · simpa [without, h] using ih

/-- The value of a key, if it has one. -/
def get? (m : OrderedMap κ α) (k : κ) : Option α := find? k m.entries

/-- The value of a key, or the given one. -/
def getD (m : OrderedMap κ α) (k : κ) (default : α) : α := (m.get? k).getD default

/-- Whether a key has a value. -/
def contains (m : OrderedMap κ α) (k : κ) : Bool := decide (k ∈ m.keys)

/-- Give a key a value: a known key keeps its place, a new one goes to the end. -/
def set (m : OrderedMap κ α) (k : κ) (v : α) : OrderedMap κ α :=
  if h : k ∈ m.keys then
    ⟨replaced k v m.entries, by rw [map_fst_replaced]; exact m.nodup⟩
  else
    ⟨m.entries ++ [(k, v)], by
      rw [List.map_append, List.nodup_append]
      refine ⟨m.nodup, by simp, ?_⟩
      intro a ha b hb
      simp only [List.map_cons, List.map_nil, List.mem_singleton] at hb
      rintro rfl
      exact h (hb ▸ ha)⟩

/-- Take a key and its value out. -/
def erase (m : OrderedMap κ α) (k : κ) : OrderedMap κ α :=
  ⟨without k m.entries, by rw [map_fst_without]; exact m.nodup.filter _⟩

/-- Put entries in one after another; of two with the same key the later value wins. -/
def setAll (m : OrderedMap κ α) (l : List (κ × α)) : OrderedMap κ α :=
  l.foldl (fun m e => m.set e.1 e.2) m

/-- The map of a list of entries. -/
def ofList (l : List (κ × α)) : OrderedMap κ α := empty.setAll l

theorem find?_replaced_self {k : κ} {l : List (κ × α)} (v : α) (h : k ∈ l.map Prod.fst) :
    find? k (replaced k v l) = some v := by
  induction l with
  | nil => simp at h
  | cons e l ih =>
    by_cases he : e.1 = k
    · simp [replaced, find?, he]
    · have : k ∈ l.map Prod.fst := by
        simp only [List.map_cons, List.mem_cons] at h
        exact h.resolve_left fun hk => he hk.symm
      simp [replaced, find?, he, ih this]

theorem find?_replaced_of_ne {k k' : κ} (h : k' ≠ k) (v : α) (l : List (κ × α)) :
    find? k' (replaced k v l) = find? k' l := by
  induction l with
  | nil => rfl
  | cons e l ih =>
    by_cases he : e.1 = k
    · have : ¬ k = k' := fun hk => h hk.symm
      simp [replaced, find?, he, this, ih]
    · simp [replaced, find?, he, ih]

theorem find?_append (k : κ) (l l' : List (κ × α)) :
    find? k (l ++ l') = (find? k l).or (find? k l') := by
  induction l with
  | nil => rfl
  | cons e l ih => by_cases he : e.1 = k <;> simp [find?, he, ih]

theorem find?_eq_none_iff {k : κ} {l : List (κ × α)} :
    find? k l = none ↔ k ∉ l.map Prod.fst := by
  induction l with
  | nil => simp [find?]
  | cons e l ih =>
    by_cases he : e.1 = k
    · simp [find?, he]
    · have : ¬ k = e.1 := fun hk => he hk.symm
      simp only [find?, he, if_false, ih, List.map_cons, List.mem_cons, this, false_or]

theorem find?_without_self (k : κ) (l : List (κ × α)) : find? k (without k l) = none := by
  rw [find?_eq_none_iff, map_fst_without]
  simp

theorem find?_without_of_ne {k k' : κ} (h : k' ≠ k) (l : List (κ × α)) :
    find? k' (without k l) = find? k' l := by
  induction l with
  | nil => rfl
  | cons e l ih =>
    by_cases he : e.1 = k
    · have : ¬ k = k' := fun hk => h hk.symm
      simp [without, find?, he, this, ih]
    · simp [without, find?, he, ih]

@[simp] theorem get?_empty (k : κ) : (empty : OrderedMap κ α).get? k = none := rfl

theorem get?_eq_none_iff {m : OrderedMap κ α} {k : κ} : m.get? k = none ↔ k ∉ m.keys :=
  find?_eq_none_iff

theorem get?_set_self (m : OrderedMap κ α) (k : κ) (v : α) : (m.set k v).get? k = some v := by
  unfold set get?
  split
  · next h => exact find?_replaced_self v h
  · next h =>
    have := find?_eq_none_iff.2 h
    simp [find?_append, this, find?]

theorem get?_set_of_ne {k k' : κ} (h : k' ≠ k) (m : OrderedMap κ α) (v : α) :
    (m.set k v).get? k' = m.get? k' := by
  unfold set get?
  split
  · exact find?_replaced_of_ne h v _
  · have : ¬ k = k' := fun hk => h hk.symm
    simp [find?_append, find?, this]

theorem get?_erase_self (m : OrderedMap κ α) (k : κ) : (m.erase k).get? k = none :=
  find?_without_self k _

theorem get?_erase_of_ne {k k' : κ} (h : k' ≠ k) (m : OrderedMap κ α) :
    (m.erase k).get? k' = m.get? k' :=
  find?_without_of_ne h _

/-- A known key keeps its place, a new one goes to the end. -/
theorem keys_set (m : OrderedMap κ α) (k : κ) (v : α) :
    (m.set k v).keys = if k ∈ m.keys then m.keys else m.keys ++ [k] := by
  unfold set
  split
  · exact map_fst_replaced k v _
  · simp [keys]

end Keys

end OrderedMap

end TreeShell
