import TreeShell.Proofs.Json.RoundTrip
import TreeShell.Proofs.Text.Utf8
import TreeShell.Storage

/-!
# Files that are written and read

What is written to a file of the disk is what is read from the same location afterwards, for the
write leaves every folder on the way a folder. A text of printable characters of seven bits comes
back as it was, line ends included, and so does the record of a tree.
-/

namespace TreeShell

namespace DiskNode

variable {node new : DiskNode}

theorem findEntry_setEntry (name k : String) (node : DiskNode)
    (entries : List (String × DiskNode)) :
    findEntry k (setEntry name node entries) =
      if k = name then some node else findEntry k entries := by
  induction entries with
  | nil => simp only [setEntry, findEntry, eq_comm]
  | cons entry rest ih =>
    obtain ⟨first, n⟩ := entry
    rw [setEntry, findEntry]
    by_cases hfirst : first = name
    · subst hfirst
      rw [if_pos rfl, findEntry]
      by_cases hk : k = first
      · rw [if_pos hk.symm, if_pos hk]
      · rw [if_neg (Ne.symm hk), if_neg (Ne.symm hk), if_neg hk]
    · rw [if_neg hfirst, findEntry, ih]
      by_cases hk : first = k
      · rw [if_pos hk, if_neg (hk ▸ hfirst), if_pos hk]
      · rw [if_neg hk, if_neg hk]

theorem at?_append (node : DiskNode) (names others : List String) :
    node.at? (names ++ others) = (node.at? names).bind fun n => n.at? others := by
  induction names generalizing node with
  | nil => rfl
  | cons name names ih =>
    rw [List.cons_append, at?, at?]
    cases node.entry? name with
    | none => rfl
    | some n => exact ih n

/-- Whether what is at some names in one node is at the same names in another, folders as
folders. -/
def Keeps (node node' : DiskNode) : Prop :=
  ∀ names n, node.at? names = some n →
    ∃ n', node'.at? names = some n' ∧ (n.isFolder = true → n'.isFolder = true)

/-- A folder with an entry replaced keeps the other entries, and what that entry keeps. -/
theorem Keeps.setEntry {times : DiskTimes} {entries : List (String × DiskNode)} {name : String}
    {n : DiskNode} (h : ∀ old, findEntry name entries = some old → old.Keeps n) :
    (DiskNode.folder times entries).Keeps (.folder times (setEntry name n entries)) := by
  intro names m hm
  cases names with
  | nil => exact ⟨_, rfl, fun _ => rfl⟩
  | cons k names =>
    obtain ⟨old, hold, hm⟩ := Option.bind_eq_some_iff.mp hm
    rw [at?, entry?, findEntry_setEntry]
    by_cases hk : k = name
    · subst hk
      rw [if_pos rfl, Option.bind_some]
      exact h old hold names m hm
    · rw [if_neg hk]
      have hkept : findEntry k entries = some old := hold
      exact ⟨m, by rw [hkept, Option.bind_some, hm], id⟩

/-- Nothing is below a file, so that a file can be replaced by anything. -/
theorem Keeps.of_not_isFolder (h : node.isFolder = false) : node.Keeps new := by
  intro names m hm
  cases names with
  | nil =>
    cases hm
    rw [h]
    exact ⟨new, rfl, fun hfolder => nomatch hfolder⟩
  | cons k names =>
    cases node with
    | file times bytes => cases hm
    | folder times entries => cases h

/-- A node that is put into a folder, in the place of a file or of nothing, is found there. All else
is found as before. -/
theorem at?_putAt {folder : List String} {name : String} {times : DiskTimes}
    {entries : List (String × DiskNode)} (h : node.at? folder = some (.folder times entries))
    (hfile : ∀ old, findEntry name entries = some old → old.isFolder = false) (new : DiskNode) :
    (node.putAt new (folder ++ [name])).at? (folder ++ [name]) = some new ∧
      node.Keeps (node.putAt new (folder ++ [name])) := by
  induction folder generalizing node with
  | nil =>
    cases h
    have hput : (DiskNode.folder times entries).putAt new [name] =
        .folder times (setEntry name new entries) := by
      rw [putAt]
      split <;> rfl
    rw [List.nil_append, hput]
    refine ⟨?_, Keeps.setEntry fun old hold => Keeps.of_not_isFolder (hfile old hold)⟩
    rw [at?, entry?, findEntry_setEntry, if_pos rfl]
    rfl
  | cons first folder ih =>
    cases node with
    | file _ _ => cases h
    | folder above others =>
      obtain ⟨n, hn, hfolder⟩ := Option.bind_eq_some_iff.mp h
      obtain ⟨hnew, hkeeps⟩ := ih hfolder
      have hn' : findEntry first others = some n := hn
      rw [List.cons_append, putAt.eq_def]
      dsimp only
      rw [hn']
      constructor
      · rw [at?, entry?, findEntry_setEntry, if_pos rfl]
        exact hnew
      · refine Keeps.setEntry fun old hold => ?_
        cases hn'.symm.trans hold
        exact hkeeps

end DiskNode

namespace Disk

variable {d d' : Disk} {l : Location} {place place' : List String}

/-- What names that lead somewhere lead through. -/
theorem follow_cons_eq_ok {name : String} {names : List String} :
    d.follow place (name :: names) = .ok place' ↔
      ∃ times entries, d.root.at? place = some (.folder times entries) ∧
        (name = ".." ∧ d.follow place.dropLast names = .ok place' ∨
          name ≠ ".." ∧ isLongName name = false ∧ DiskNode.findEntry name entries ≠ none ∧
            d.follow (place ++ [name]) names = .ok place') := by
  rw [follow]
  cases d.root.at? place with
  | none => simp
  | some n =>
    cases n with
    | file _ _ => simp
    | folder times entries =>
      by_cases hup : name = ".."
      · simp [hup]
      · cases hlong : isLongName name with
        | true => simp [hup]
        | false => cases hentry : DiskNode.findEntry name entries <;> simp [hup, hentry]

theorem follow_append (place names others : List String) :
    d.follow place (names ++ others) = (d.follow place names).bind fun p => d.follow p others := by
  induction names generalizing place with
  | nil => rfl
  | cons name names ih =>
    rw [List.cons_append, follow, follow]
    split
    · rfl
    · rfl
    · split
      · exact ih _
      · split
        · rfl
        · split
          · rfl
          · exact ih _

/-- Names that lead somewhere lead there on a disk that keeps what the one before had. -/
theorem follow_of_keeps (hkeeps : d.root.Keeps d'.root) {names : List String}
    (h : d.follow place names = .ok place') : d'.follow place names = .ok place' := by
  -- since two dots lead up, the folders on the way need not be above the place in the end: what is
  -- kept has to be known of all places
  induction names generalizing place with
  | nil => exact h
  | cons name names ih =>
    rw [follow_cons_eq_ok] at h ⊢
    obtain ⟨times, entries, hfolder, h⟩ := h
    obtain ⟨n', hn', hkept⟩ := hkeeps place _ hfolder
    cases n' with
    | file _ _ => cases hkept rfl
    | folder times' entries' =>
      refine ⟨times', entries', hn', ?_⟩
      rcases h with ⟨hup, h⟩ | ⟨hup, hlong, hentry, h⟩
      · exact Or.inl ⟨hup, ih h⟩
      · obtain ⟨n, hn⟩ := Option.ne_none_iff_exists'.mp hentry
        have hbelow : d.root.at? (place ++ [name]) = some n := by
          rw [DiskNode.at?_append, hfolder]
          simp [DiskNode.at?, DiskNode.entry?, hn]
        obtain ⟨m, hm, -⟩ := hkeeps _ _ hbelow
        rw [DiskNode.at?_append, hn'] at hm
        refine Or.inr ⟨hup, hlong, fun hnone => ?_, ih h⟩
        simp [DiskNode.at?, DiskNode.entry?, hnone] at hm

/-- A location whose names lead, but for the last, to a folder, where the last can name an entry. -/
structure Reaches (d : Disk) (l : Location) (folder : List String) (name : String)
    (times : DiskTimes) (entries : List (String × DiskNode)) : Prop where
  fit : unfit? l = none
  parts : l.parts = l.parts.dropLast ++ [name]
  follow : d.follow (d.start l) l.parts.dropLast = .ok folder
  folder : d.root.at? folder = some (.folder times entries)
  not_up : name ≠ ".."
  short : isLongName name = false

/-- Where something would be made or replaced is an entry of a folder. -/
theorem target_eq_ok {entry : Option DiskNode} (h : d.target l = .ok (some (place, entry))) :
    ∃ folder name times entries, d.Reaches l folder name times entries ∧
      place = folder ++ [name] ∧ entry = DiskNode.findEntry name entries := by
  rw [target] at h
  cases hunfit : unfit? l with
  | some fault => simp [hunfit, bind, Except.bind, throw, throwThe, MonadExceptOf.throw] at h
  | none =>
    cases hlast : l.parts.getLast? with
    | none => simp [hunfit, hlast, pure, Except.pure] at h
    | some name =>
      cases hfollow : d.follow (d.start l) l.parts.dropLast with
      | error fault => simp [hunfit, hlast, hfollow, bind, Except.bind] at h
      | ok folder =>
        simp only [hunfit, hlast, hfollow, bind, Except.bind, pure, Except.pure] at h
        cases hfolder : d.root.at? folder with
        | none => simp [hfolder, throw, throwThe, MonadExceptOf.throw] at h
        | some n =>
          cases n with
          | file _ _ => simp [hfolder, throw, throwThe, MonadExceptOf.throw] at h
          | folder times entries =>
            by_cases hup : name = ".."
            · simp [hfolder, hup] at h
            · cases hlong : isLongName name with
              | true => simp [hfolder, hup, hlong, throw, throwThe, MonadExceptOf.throw] at h
              | false =>
                simp only [hfolder, hup, hlong, if_false, Bool.false_eq_true] at h
                have hparts : l.parts = l.parts.dropLast ++ [name] :=
                  (List.dropLast_append_getLast? name hlast).symm
                cases h
                exact ⟨folder, name, times, entries,
                  ⟨hunfit, hparts, hfollow, hfolder, hup, hlong⟩, rfl, rfl⟩

/-- A file that is put where a location says is found at that location. -/
theorem Reaches.node_putAt {folder : List String} {name : String} {times : DiskTimes}
    {entries : List (String × DiskNode)} (h : d.Reaches l folder name times entries)
    (hfile : ∀ old, DiskNode.findEntry name entries = some old → old.isFolder = false)
    (new : DiskNode) :
    (d.putAt (folder ++ [name]) new).node l = .ok new := by
  obtain ⟨hnew, hkeeps⟩ := DiskNode.at?_putAt h.folder hfile new
  have hplace : (d.putAt (folder ++ [name]) new).follow (d.start l) l.parts =
      .ok (folder ++ [name]) := by
    obtain ⟨n', hn', hkept⟩ := hkeeps folder _ h.folder
    cases n' with
    | file _ _ => cases hkept rfl
    | folder times' entries' =>
      have hentry : DiskNode.findEntry name entries' ≠ none := by
        rw [DiskNode.at?_append, hn'] at hnew
        intro hnone
        simp [DiskNode.at?, DiskNode.entry?, hnone] at hnew
      have hlast : (d.putAt (folder ++ [name]) new).follow folder [name] = .ok (folder ++ [name]) :=
        follow_cons_eq_ok.mpr
          ⟨times', entries', hn', Or.inr ⟨h.not_up, h.short, hentry, rfl⟩⟩
      have hfirst : (d.putAt (folder ++ [name]) new).follow (d.start l) l.parts.dropLast =
          .ok folder :=
        follow_of_keeps hkeeps h.follow
      rw [h.parts, follow_append, hfirst]
      exact hlast
  have hstart : (d.putAt (folder ++ [name]) new).start l = d.start l := rfl
  have hroot : (d.putAt (folder ++ [name]) new).root.at? (folder ++ [name]) = some new := hnew
  simp only [node, place, h.fit, hstart, hplace, bind, Except.bind, hroot]
  rfl

/-- Bytes that are written to a file are what is read at its location. -/
theorem node_of_writeBytes {bytes : List UInt8} (h : d.writeBytes l bytes = .ok d') :
    ∃ times, d'.node l = .ok (.file times bytes) := by
  rw [writeBytes] at h
  split at h
  · next place times old htarget =>
    obtain ⟨folder, name, above, entries, hreaches, rfl, hold⟩ := target_eq_ok htarget
    have hfile : ∀ n, DiskNode.findEntry name entries = some n → n.isFolder = false := by
      intro n hn
      cases hold.trans hn
      rfl
    cases h
    exact ⟨times, hreaches.node_putAt hfile _⟩
  · next place htarget =>
    obtain ⟨folder, name, above, entries, hreaches, rfl, hnone⟩ := target_eq_ok htarget
    have hfile : ∀ n, DiskNode.findEntry name entries = some n → n.isFolder = false := by
      intro n hn
      cases hnone.trans hn
    cases h
    exact ⟨d.times, hreaches.node_putAt hfile _⟩
  · cases h
  · cases h

end Disk

/-! ## Texts -/

namespace Text

/-- A text without carriage returns has no line end to fold. -/
theorem foldNewlines_of_not_mem {cs : List Char} (h : '\r' ∉ cs) : foldNewlines cs = cs := by
  induction cs with
  | nil => rfl
  | cons c cs ih =>
    rw [List.mem_cons, not_or] at h
    rw [foldNewlines.eq_def]
    split
    · next heq => cases heq
    · next heq =>
      cases heq
      exact absurd rfl h.1
    · next heq =>
      cases heq
      exact absurd rfl h.1
    · next heq =>
      cases heq
      rw [ih h.2]

end Text

/-- Bytes are read as the text that they are of, with its line ends folded. -/
theorem readText_eq_ok_iff {bytes : List UInt8} {text : String} :
    readText bytes = .ok text ↔
      ∃ cs, bytes = Text.utf8 cs ∧ text = String.ofList (Text.foldNewlines cs) := by
  rw [readText]
  cases h : Text.decodeUtf8 bytes with
  | error e =>
    refine iff_of_false (fun hok => nomatch hok) ?_
    rintro ⟨cs, hcs, -⟩
    rw [Text.decodeUtf8_eq_ok_iff.mpr hcs] at h
    cases h
  | ok cs =>
    constructor
    · intro hok
      cases hok
      exact ⟨cs, Text.decodeUtf8_eq_ok_iff.mp h, rfl⟩
    · rintro ⟨others, hothers, rfl⟩
      rw [Text.decodeUtf8_eq_ok_iff.mpr hothers] at h
      cases h
      rfl

theorem toOption_readText_iff {bytes : List UInt8} {text : String} :
    (readText bytes).toOption = some text ↔
      ∃ cs, bytes = Text.utf8 cs ∧ text = String.ofList (Text.foldNewlines cs) := by
  rw [← readText_eq_ok_iff]
  cases readText bytes <;> simp [Except.toOption]

/-- A text of printable characters and line feeds is read back from its bytes. -/
theorem readText_utf8 {s : String} (h : ∀ c ∈ s.toList, Json.Printed c) :
    readText (Text.utf8 s.toList) = .ok s := by
  have hreturn : '\r' ∉ s.toList := fun hc => absurd (h _ hc) (by decide)
  refine readText_eq_ok_iff.mpr ⟨s.toList, rfl, ?_⟩
  rw [Text.foldNewlines_of_not_mem hreturn, String.ofList_toList]

/-! ## Records -/

/-- A record without numbers that have places behind the point is loaded from the file that it was
saved to. -/
theorem Disk.loadRecord_saveRecord {d : Disk} {l : Location} {fields : List (String × Json)}
    (hplain : (Json.object fields).Plain) (h : (d.saveRecord l (.object fields)).1 = .ok ()) :
    (d.saveRecord l (.object fields)).2.loadRecord l = .ok (some (.object fields)) := by
  rw [saveRecord] at h ⊢
  generalize d.makeParents l = made at h ⊢
  obtain ⟨parents, d⟩ := made
  cases parents with
  | error e => cases h
  | ok =>
    dsimp only at h ⊢
    cases hwrite : d.writeText l (Json.object fields).pretty with
    | error e =>
      rw [hwrite] at h
      cases h
    | ok d' =>
      obtain ⟨times, hnode⟩ := Disk.node_of_writeBytes hwrite
      have hbytes : d'.readBytes l = .ok (Text.utf8 (Json.object fields).pretty.toList) := by
        rw [Disk.readBytes, hnode]
      have hthere : d'.node? l =
          .ok (some (.file times (Text.utf8 (Json.object fields).pretty.toList))) := by
        rw [Disk.node?, hnode]
      have htext := readText_utf8 (Json.printed_prettyAt _ hplain 0)
      rw [← Json.pretty] at htext
      simp only [loadRecord, hthere, hbytes, htext, Json.read_pretty hplain, Except.mapError, bind,
        Except.bind]
      rfl

end TreeShell
