import TreeShell.Proofs.Journal
import TreeShell.Proofs.Volume.Requests

/-!
# Saving what was written

A volume saves its tree in a cell of memory whose saves may fail at will. Neither the answers nor
the tree depend on what becomes of the saves. A request that changes the tree tries one save of all
of it; one that is refused, asks, or has nothing to do tries none. The cell has the record of the
tree after each save that succeeds, until the tree changes; a save that fails leaves one warning.
-/

namespace TreeShell

namespace Cell

variable (c : Cell) (record : Json)

/-- A save leaves a trace in the cell, also if it fails. -/
theorem save_ne : (c.save record).2 ≠ c := by
  obtain ⟨old, saves, outcomes⟩ := c
  intro h
  cases outcomes with
  | nil =>
    have hs : saves + 1 = saves := congrArg Cell.saves h
    omega
  | cons o rest =>
    have ho : (save ⟨old, saves, o :: rest⟩ record).2.outcomes = rest := by
      cases o <;> rfl
    rw [h] at ho
    have hl : rest.length + 1 = rest.length := congrArg List.length ho
    omega

/-- A save that succeeds puts the record in. -/
theorem record_save_ok (h : (c.save record).1 = .ok ()) :
    (c.save record).2.record = some record := by
  obtain ⟨old, saves, outcomes⟩ := c
  cases outcomes with
  | nil => rfl
  | cons o rest =>
    cases o with
    | none => rfl
    | some e => cases h

/-- A save that fails leaves the record that was there. -/
theorem record_save_error {e : HostError} (h : (c.save record).1 = .error e) :
    (c.save record).2.record = c.record := by
  obtain ⟨old, saves, outcomes⟩ := c
  cases outcomes with
  | nil => cases h
  | cons o rest =>
    cases o with
    | none => cases h
    | some e => rfl

end Cell

/-- Whether a request makes a volume with a tree try to save it. -/
def Request.Saves (t : Tree) (r : Request) : Prop :=
  match r.operation with
  | .edit e => e.Permitted r.cwd t.item? ∧ ¬ e.Idle r.cwd t.item?
  | .save => True
  | .ask _ => False

namespace Volume

variable {v w : Volume}

/-! ## Answers -/

/-- Answers and trees depend on the tree alone. -/
theorem request_congr (h : v.tree = w.tree) (r : Request) :
    (v.request r).1 = (w.request r).1 ∧ (v.request r).2.tree = (w.request r).2.tree := by
  refine ⟨?_, by rw [tree_request, tree_request, h]⟩
  have hclock : (v.atClock r.clock).tree = (w.atClock r.clock).tree := h
  unfold request
  cases r.operation with
  | edit e =>
    dsimp only
    rw [reply_perform, reply_perform, hclock]
    rfl
  | save => rfl
  | ask q =>
    dsimp only
    rw [h]

/-- Requests one after another are answered alike by volumes with one tree. -/
theorem serve_congr (h : v.tree = w.tree) (rs : List Request) :
    (v.serve rs).1 = (w.serve rs).1 ∧ (v.serve rs).2.tree = (w.serve rs).2.tree := by
  induction rs generalizing v w with
  | nil => exact ⟨rfl, h⟩
  | cons r rs ih =>
    obtain ⟨hreply, htree⟩ := request_congr h r
    obtain ⟨hrest, hlast⟩ := ih htree
    exact ⟨by rw [serve, serve, hreply, hrest], hlast⟩

/-! ## Saves -/

/-- An edit that changes the tree saves it. -/
theorem perform_of_changed {cwd : String} {e : Edit} {t : Tree}
    (h : e.perform v.clock cwd v.tree = (.ok true, t)) :
    v.perform cwd e = (.ok (), { v with tree := t }.save) := by
  rw [perform, h]

/-- An edit that has nothing to do does not save. -/
theorem perform_of_unchanged {cwd : String} {e : Edit}
    (h : e.perform v.clock cwd v.tree = (.ok false, v.tree)) : v.perform cwd e = (.ok (), v) := by
  rw [perform, h]

/-- An edit that is refused leaves the volume as it was. -/
theorem perform_of_refused {cwd : String} {e : Edit} {refusal : PathError}
    (h : e.perform v.clock cwd v.tree = (.error refusal, v.tree)) :
    v.perform cwd e = (.error refusal, v) := by
  rw [perform, h]

/-- What a request comes to: it saves the tree that it leaves, or nothing but the time is new. -/
inductive Served (v : Volume) (r : Request) : Except PathError Reply × Volume → Prop where
  | saved (t : Tree) (hs : r.Saves v.tree) :
    Served v r (.ok .done, { v.atClock r.clock with tree := t }.save)
  | quiet (reply : Except PathError Reply) (hs : ¬ r.Saves v.tree) :
    Served v r (reply, v.atClock r.clock)

/-- Every request of a well-formed tree saves the tree that it leaves, or leaves it as it was. -/
theorem served_request (h : v.tree.WellFormed) (r : Request) : Served v r (v.request r) := by
  obtain ⟨clock, cwd, operation⟩ := r
  cases operation with
  | edit e =>
    have ho := Tree.outcome_perform clock cwd h e
    rw [request]
    generalize hc : e.perform clock cwd v.tree = change at ho
    cases ho with
    | refused hp hr =>
      have he := perform_of_refused (v := v.atClock clock) hc
      dsimp only
      rw [he]
      exact .quiet _ fun hs => hp hs.1
    | unchanged hp hi =>
      have he := perform_of_unchanged (v := v.atClock clock) hc
      dsimp only
      rw [he]
      exact .quiet _ fun hs => hs.2 hi
    | changed hp hi hw hm =>
      have he := perform_of_changed (v := v.atClock clock) hc
      dsimp only
      rw [he]
      exact .saved _ ⟨hp, hi⟩
  | save => exact .saved v.tree trivial
  | ask q => exact .quiet _ id

/-- What is noted of a save that fails. -/
def saveWarning (e : HostError) (clock : Int) : Entry :=
  ⟨.warning, "could not persist filesystem: " ++ e.message, "fs", clock⟩

/-- A save does to the storage what the store does, and notes a failure. -/
theorem save_of_store {st : Store} (hs : v.store = some st) :
    v.save.store = some st ∧ v.save.storage = (st.save v.tree.record v.storage).2 ∧
      v.save.journal =
        match (st.save v.tree.record v.storage).1 with
        | .ok _ => v.journal
        | .error e => v.journal.push (saveWarning e v.clock) := by
  rw [save, hs]
  generalize hsave : st.save v.tree.record v.storage = result
  obtain ⟨outcome, storage⟩ := result
  dsimp only
  rw [hsave]
  cases outcome with
  | ok _ => exact ⟨rfl, rfl, rfl⟩
  | error e => exact ⟨rfl, rfl, rfl⟩

/-- To save in memory is to save in the cell. -/
theorem save_memory {c : Nat} {cell : Cell} {storage : Storage} (hc : storage.cells[c]? = some cell)
    (record : Json) :
    (Store.save (.memory c) record storage).1 = (cell.save record).1 ∧
      (Store.save (.memory c) record storage).2.cells[c]? = some (cell.save record).2 := by
  have hlt : c < storage.cells.length := (List.getElem?_eq_some_iff.mp hc).1
  rw [Store.save, hc]
  exact ⟨rfl, List.getElem?_set_self hlt⟩

/-- The cell has the record of the tree. -/
def Stored (c : Nat) (v : Volume) : Prop :=
  ∃ cell, v.storage.cells[c]? = some cell ∧ cell.record = some v.tree.record

/-- What one request does to the cell and to the journal. -/
structure SavesOnWrite (c : Nat) (cell : Cell) (v : Volume) (r : Request) : Prop where
  /-- If the record of the tree is another after the request, a save was tried. -/
  changed : (v.request r).2.tree.record ≠ v.tree.record → r.Saves v.tree
  /-- A question tries none. -/
  asked : ∀ q, r.operation = .ask q → ¬ r.Saves v.tree
  /-- An edit that has nothing to do tries none. -/
  idle : ∀ e, r.operation = .edit e → e.Idle r.cwd v.tree.item? → ¬ r.Saves v.tree
  /-- A request that is refused tries none. -/
  refused : ∀ e, (v.request r).1 = .error e → ¬ r.Saves v.tree
  /-- To try a save is to save the new record once. -/
  once : r.Saves v.tree → (v.request r).2.storage =
    (Store.save (.memory c) (v.request r).2.tree.record v.storage).2
  /-- A save that was tried leaves a trace. -/
  traced : r.Saves v.tree → (v.request r).2.storage ≠ v.storage
  /-- If no save was tried, nothing but the time is new. -/
  quiet : ¬ r.Saves v.tree → (v.request r).2 = v.atClock r.clock
  /-- After a save that succeeds the cell has the record of the tree, and no warning is left. -/
  succeeded : r.Saves v.tree → (cell.save (v.request r).2.tree.record).1 = .ok () →
    (v.request r).2.Stored c ∧ (v.request r).2.journal = v.journal
  /-- A save that fails leaves one warning: the journal takes it behind the older entries. -/
  failed : ∀ e, r.Saves v.tree → (cell.save (v.request r).2.tree.record).1 = .error e →
    v.journal.Takes (saveWarning e r.clock) (v.request r).2.journal
  /-- The cell goes on to have the record of the tree as long as that is the same. -/
  kept : (v.request r).2.tree.record = v.tree.record → v.Stored c → (v.request r).2.Stored c

theorem not_saves_of_ask {r : Request} {q : Question} (h : r.operation = .ask q) (t : Tree) :
    ¬ r.Saves t := by
  rw [Request.Saves, h]
  exact id

theorem not_saves_of_idle {r : Request} {e : Edit} {t : Tree} (h : r.operation = .edit e)
    (hi : e.Idle r.cwd t.item?) : ¬ r.Saves t := by
  rw [Request.Saves, h]
  exact fun hs => hs.2 hi

section Cell

variable {c : Nat} {cell : Cell} (hs : v.store = some (.memory c))
  (hc : v.storage.cells[c]? = some cell)

include hs hc

/-- A request to a volume in a cell that is there saves as it should. -/
theorem savesOnWrite (h : v.tree.WellFormed) (r : Request) : SavesOnWrite c cell v r := by
  have hserved := served_request h r
  generalize hresult : v.request r = result at hserved
  cases hserved with
  | saved t hsaves =>
    have hstore : ({ v.atClock r.clock with tree := t } : Volume).store = some (.memory c) := hs
    obtain ⟨-, hstorage, hjournal⟩ := save_of_store hstore
    obtain ⟨houtcome, hcell⟩ := save_memory hc t.record
    have htree : (v.request r).2.tree = t := by rw [hresult, tree_save]
    have hnew : (v.request r).2.storage = (Store.save (.memory c) t.record v.storage).2 := by
      rw [hresult]
      exact hstorage
    have hlog : (v.request r).2.journal =
        match (cell.save t.record).1 with
        | .ok _ => v.journal
        | .error e => v.journal.push (saveWarning e r.clock) := by
      rw [hresult, ← houtcome]
      exact hjournal
    have hstored : (cell.save t.record).2.record = some t.record → (v.request r).2.Stored c := by
      intro hrecord
      exact ⟨_, by rw [hnew, hcell], by rw [hrecord, htree]⟩
    exact {
      changed _ := hsaves
      asked _ hq := not_saves_of_ask hq _
      idle _ he hi := not_saves_of_idle he hi
      refused e he := by
        rw [hresult] at he
        cases he
      once _ := by rw [hnew, htree]
      traced _ hsame := by
        rw [hnew] at hsame
        rw [hsame, hc, Option.some.injEq] at hcell
        exact Cell.save_ne cell t.record hcell.symm
      quiet hquiet := absurd hsaves hquiet
      succeeded _ hok := by
        rw [htree] at hok
        rw [hok] at hlog
        exact ⟨hstored (Cell.record_save_ok cell t.record hok), hlog⟩
      failed e _ herror := by
        rw [htree] at herror
        rw [herror] at hlog
        rw [hlog]
        exact v.journal.takes_push _
      kept := by
        rintro hsame ⟨cell', hc', hrecord⟩
        obtain rfl : cell = cell' := Option.some.inj (hc.symm.trans hc')
        rw [htree] at hsame
        refine hstored ?_
        cases ho : (cell.save t.record).1 with
        | ok u => exact Cell.record_save_ok cell t.record ho
        | error e => rw [Cell.record_save_error cell t.record ho, hrecord, hsame] }
  | quiet reply hquiet =>
    have hafter : (v.request r).2 = v.atClock r.clock := by rw [hresult]
    exact {
      changed hne := by
        rw [hafter] at hne
        exact absurd rfl hne
      asked _ _ := hquiet
      idle _ _ _ := hquiet
      refused _ _ := hquiet
      once hsaves := absurd hsaves hquiet
      traced hsaves := absurd hsaves hquiet
      quiet _ := hafter
      succeeded hsaves := absurd hsaves hquiet
      failed _ hsaves := absurd hsaves hquiet
      kept := by
        rintro - ⟨cell', hc', hrecord⟩
        exact ⟨cell', by rw [hafter]; exact hc', by rw [hafter]; exact hrecord⟩ }

end Cell

/-- A request leaves the store of a volume as it is, and the cell in its place. -/
theorem store_request (h : v.tree.WellFormed) (r : Request) {c : Nat} {cell : Cell}
    (hs : v.store = some (.memory c)) (hc : v.storage.cells[c]? = some cell) :
    (v.request r).2.store = some (.memory c) ∧
      ∃ cell, (v.request r).2.storage.cells[c]? = some cell := by
  have hserved := served_request h r
  generalize v.request r = result at hserved
  cases hserved with
  | saved t hsaves =>
    have hstore : ({ v.atClock r.clock with tree := t } : Volume).store = some (.memory c) := hs
    obtain ⟨hsame, hstorage, -⟩ := save_of_store hstore
    exact ⟨hsame, _, by rw [hstorage]; exact (save_memory hc t.record).2⟩
  | quiet reply hquiet => exact ⟨hs, cell, hc⟩

/-- A volume whose tree is well-formed and whose store is a cell of memory that is there. -/
def InMemory (c : Nat) (v : Volume) : Prop :=
  v.tree.WellFormed ∧ v.store = some (.memory c) ∧ ∃ cell, v.storage.cells[c]? = some cell

/-- The cell of a volume in memory is never lost. -/
theorem inMemory_serve {c : Nat} (h : v.InMemory c) (rs : List Request) :
    (v.serve rs).2.InMemory c := by
  refine serve_induction h rs fun w r _ hw => ?_
  obtain ⟨hwf, hs, cell, hc⟩ := hw
  exact ⟨wellFormed_request hwf r, store_request hwf r hs hc⟩

/-- Once the cell has the record of the tree, it has it as long as the requests leave the tree's
record the same, whatever becomes of their saves. -/
theorem stored_serve {c : Nat} (h : v.InMemory c) (hstored : v.Stored c) (rs : List Request)
    (hsame : ∀ k, (v.serve (rs.take k)).2.tree.record = v.tree.record) :
    (v.serve rs).2.Stored c := by
  induction rs generalizing v with
  | nil => exact hstored
  | cons r rs ih =>
    obtain ⟨hwf, hs, cell, hc⟩ := h
    have hfirst : (v.request r).2.tree.record = v.tree.record := hsame 1
    refine ih ⟨wellFormed_request hwf r, store_request hwf r hs hc⟩
      ((savesOnWrite hs hc hwf r).kept hfirst hstored) fun k => ?_
    rw [hfirst]
    exact hsame (k + 1)

/-- What serving requests comes to for a volume in memory. -/
structure ServedInMemory (c : Nat) (v : Volume) (rs : List Request) : Prop where
  /-- The answers are those of a volume that is saved nowhere. -/
  answers : (v.serve rs).1 = (serve { v with store := none } rs).1
  /-- So is the tree. -/
  tree : (v.serve rs).2.tree = (serve { v with store := none } rs).2.tree
  /-- The next request saves what it changes. -/
  next : ∃ cell, (v.serve rs).2.storage.cells[c]? = some cell ∧
    ∀ r, SavesOnWrite c cell (v.serve rs).2 r
  /-- What was saved is the record of the tree until that changes. -/
  kept : (v.serve rs).2.Stored c → ∀ rs',
    (∀ k, ((v.serve rs).2.serve (rs'.take k)).2.tree.record = (v.serve rs).2.tree.record) →
    ((v.serve rs).2.serve rs').2.Stored c

/-- Whatever becomes of the saves of a volume in memory, and whatever is asked of it, it saves each
change once and is not changed by a save. -/
theorem served_in_memory (h : v.Fresh) {c : Nat} {cell : Cell} (hs : v.store = some (.memory c))
    (hc : v.storage.cells[c]? = some cell) (rs : List Request) : ServedInMemory c v rs := by
  have hin : v.InMemory c := ⟨h.wellFormed, hs, cell, hc⟩
  have hafter := inMemory_serve hin rs
  have htree : v.tree = ({ v with store := none } : Volume).tree := rfl
  obtain ⟨hanswers, htrees⟩ := serve_congr htree rs
  obtain ⟨hwf, hs', cell', hc'⟩ := hafter
  exact ⟨hanswers, htrees, ⟨cell', hc', savesOnWrite hs' hc' hwf⟩,
    fun hstored rs' hsame => stored_serve ⟨hwf, hs', cell', hc'⟩ hstored rs' hsame⟩

/-- A volume whose first save and whose third one fail. -/
def unreliable : Volume :=
  ⟨Tree.empty 0, some (.memory 0),
    ⟨default, [⟨none, 0, [some ⟨.taken, "a"⟩, none, some ⟨.taken, "a"⟩]⟩]⟩, .usual, 0⟩

theorem served_in_memory_unreliable :
    ServedInMemory 0 unreliable
      [⟨1, "/", .edit (.makeDirectories "a")⟩, ⟨2, "/", .edit (.makeDirectories "a")⟩,
        ⟨3, "/", .edit (.write "a/b" (.string "x") false)⟩, ⟨4, "/", .edit (.delete "a" false)⟩] :=
  served_in_memory (Or.inl rfl) rfl rfl _

end Volume

end TreeShell
