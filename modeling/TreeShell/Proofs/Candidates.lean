import Mathlib.Data.Finset.Max
import TreeShell.Proofs.Boot
import TreeShell.Proofs.Climbing
import TreeShell.Proofs.CompletedLines

/-!
# What the line editor puts in

The line editor ends words at a few characters of its own, the completion at all blanks and bars; so
the word that is replaced and the word that is completed may differ. A single name is put in behind
what the editor keeps of the line, and several names are put in with the base of the completed word,
which is right only if the two words are one. In both cases what is put in should be what was typed
and the rest of a name.
-/

namespace TreeShell

namespace Text

variable {c : Char} {cs l : List Char} {p q : Char → Bool}

/-- The character is cut off wherever it comes last. -/
theorem trimEndOf_concat_self (c : Char) (cs : List Char) :
    trimEndOf c (cs ++ [c]) = trimEndOf c cs := by
  induction cs with
  | nil =>
    rw [List.nil_append, trimEndOf, trimEndOf]
    exact if_pos rfl
  | cons d cs ih => rw [List.cons_append, trimEndOf, trimEndOf, ih]

/-- A text grows no longer when its end is cut off. -/
theorem length_trimEndOf_le (c : Char) (cs : List Char) :
    (trimEndOf c cs).length ≤ cs.length := by
  obtain ⟨k, hk⟩ := exists_append_replicate c cs
  have hlength := congrArg List.length hk
  rw [List.length_append] at hlength
  omega

/-- A text stays as it is just if it does not end with the character that is taken off its end. -/
theorem trimEndOf_eq_self_iff : trimEndOf c cs = cs ↔ cs.getLast? ≠ some c := by
  refine ⟨fun h hlast => ?_, trimEndOf_of_getLast?_ne⟩
  obtain ⟨before, rfl⟩ := List.getLast?_eq_some_iff.mp hlast
  have hle := length_trimEndOf_le c before
  have hlength := congrArg List.length h
  rw [trimEndOf_concat_self, List.length_append, List.length_singleton] at hlength
  omega

/-- The longest end with one property is an end of the longest with another that it has too. -/
theorem rtakeWhile_suffix_of_all (h : ∀ c ∈ l.rtakeWhile p, q c = true) :
    l.rtakeWhile p <:+ l.rtakeWhile q := by
  have hl := List.rdropWhile_append_rtakeWhile (p := p) (l := l)
  refine ⟨(l.rdropWhile p).rtakeWhile q, ?_⟩
  rw [← rtakeWhile_append_of_all h, hl]

/-- The ends of a text that two tests take are one just if each passes the other test. -/
theorem rtakeWhile_eq_iff :
    l.rtakeWhile p = l.rtakeWhile q ↔
      (∀ c ∈ l.rtakeWhile q, p c = true) ∧ ∀ c ∈ l.rtakeWhile p, q c = true := by
  constructor
  · intro h
    exact ⟨fun c hc => List.mem_rtakeWhile_imp (h ▸ hc),
      fun c hc => List.mem_rtakeWhile_imp (h ▸ hc)⟩
  · rintro ⟨hp, hq⟩
    have hle := rtakeWhile_suffix_of_all hq
    exact hle.eq_of_length_le (rtakeWhile_suffix_of_all hp).length_le

end Text

/-! ## The editor's word -/

namespace LineEnd

variable {line : List Char}

/-- Whether a character ends a word of the line editor. -/
def isDelimiter (c : Char) : Bool := Session.wordDelimiters.toList.contains c

/-- The word of the line editor at the end of a line: what stands after the last delimiter. -/
def editorWord (line : List Char) : List Char := line.rtakeWhile fun c => !isDelimiter c

/-- What the line editor keeps of a line. -/
def editorContext (line : List Char) : List Char := line.rdropWhile fun c => !isDelimiter c

/-- The word that the editor hands over is the end of the line. -/
theorem editorContext_append_editorWord (line : List Char) :
    editorContext line ++ editorWord line = line :=
  List.rdropWhile_append_rtakeWhile

/-- These are the characters that end a word for the editor. -/
theorem isDelimiter_iff {c : Char} :
    isDelimiter c = true ↔
      c = ' ' ∨ c = '\t' ∨ c = '\n' ∨ c = '|' ∨ c = '<' ∨ c = '>' := by
  rw [isDelimiter, List.contains_iff_mem]
  simp [Session.wordDelimiters]

/-- The word that the editor hands over has no blank. -/
theorem not_mem_editorWord (line : List Char) : ' ' ∉ editorWord line := by
  intro hmem
  have hword := List.mem_rtakeWhile_imp hmem
  exact absurd hword (by decide)

/-- The word of the editor is the word that is completed just if this one holds no angle bracket and
the other one no blank. -/
theorem editorWord_eq_token_iff :
    editorWord line = token line ↔
      (∀ c ∈ token line, c ≠ '<' ∧ c ≠ '>') ∧ ∀ c ∈ editorWord line, Text.isBlank c = false := by
  rw [editorWord, token, Text.rtakeWhile_eq_iff, ← editorWord, ← token]
  refine and_congr (forall₂_congr fun c hc => ?_) (forall₂_congr fun c hc => ?_)
  · obtain ⟨hblank, hbar⟩ := isBound_of_mem_token hc
    rw [Bool.not_eq_true', ← Bool.not_eq_true, isDelimiter_iff]
    constructor
    · exact fun h => ⟨fun he => h (by simp [he]), fun he => h (by simp [he])⟩
    · rintro ⟨hless, hgreater⟩ (rfl | rfl | rfl | rfl | rfl | rfl)
      · exact absurd hblank (by decide)
      · exact absurd hblank (by decide)
      · exact absurd hblank (by decide)
      · exact hbar rfl
      · exact hless rfl
      · exact hgreater rfl
  · have hword := List.mem_rtakeWhile_imp hc
    have hbar : c ≠ '|' := by
      rintro rfl
      exact absurd hword (by decide)
    rw [isBound, Bool.not_or, Bool.and_eq_true, Bool.not_eq_true', Bool.not_eq_true',
      and_iff_left (beq_false_of_ne hbar)]

end LineEnd

/-! ## Names that are put in -/

namespace Choice

variable {c : Choice} {line word : List Char} {seen : String → Bool} {bare : List String}
  {name candidate : String}

/-- What follows a name that is put in and with which the word can go on. -/
def slash (goesOn : Bool) : List Char := if goesOn then ['/'] else []

/-- A candidate begins with the word of the editor and, put in its place, makes the line one that is
extended by the rest of a name that there is, and by a slash for a directory. -/
def Extends (c : Choice) (line word : List Char) (candidate : String) : Prop :=
  word <+: candidate.toList ∧ ∃ before name rest, line = before ++ word ∧ c.IsName name ∧
    name.toList = c.start ++ rest ∧
      before ++ candidate.toList = line ++ rest ++ slash (c.goesOn name)

/-- What is there of a name that fits, and the rest of it. -/
def rest (c : Choice) (name : String) : List Char := name.toList.drop c.start.length

/-- A name that fits is what was typed of it and the rest. -/
theorem Fits.start_append_rest (h : c.Fits name) : c.start ++ c.rest name = name.toList := by
  obtain ⟨rest, hrest⟩ := h.2
  rw [Choice.rest, ← hrest, List.drop_left]

/-- Names that fit are the same if their rests are. -/
theorem Fits.eq_of_rest {other : String} (h : c.Fits name) (hother : c.Fits other)
    (hrest : c.rest name = c.rest other) : name = other := by
  rw [← String.toList_inj, ← h.start_append_rest, ← hother.start_append_rest, hrest]

/-- A candidate extends the line just if it is the word and, behind it, the rest of a name that
fits, and the slash of this name. -/
theorem extends_iff (hword : word <:+ line) :
    c.Extends line word candidate ↔
      ∃ name, c.Fits name ∧ candidate.toList = word ++ (c.rest name ++ slash (c.goesOn name)) := by
  constructor
  · rintro ⟨-, before, name, rest, rfl, hname, hrest, hput⟩
    have hfits : c.Fits name := ⟨hname, rest, hrest.symm⟩
    have he : c.rest name = rest := by rw [Choice.rest, hrest, List.drop_left]
    have hline : before ++ candidate.toList =
        before ++ (word ++ (c.rest name ++ slash (c.goesOn name))) := by
      rw [hput, he, List.append_assoc, List.append_assoc]
    exact ⟨name, hfits, List.append_cancel_left hline⟩
  · rintro ⟨name, hfits, hput⟩
    obtain ⟨before, rfl⟩ := hword
    refine ⟨⟨_, hput.symm⟩, before, name, c.rest name, rfl, hfits.1,
      hfits.start_append_rest.symm, ?_⟩
    rw [hput, List.append_assoc, List.append_assoc]

/-- The word itself extends the line just if what is there of a name is a name that does not go
on. -/
theorem extends_word_iff (hword : word <:+ line) :
    c.Extends line word (String.ofList word) ↔
      c.Fits (String.ofList c.start) ∧ c.goesOn (String.ofList c.start) = false := by
  rw [extends_iff hword, String.toList_ofList]
  constructor
  · rintro ⟨name, hfits, hput⟩
    have hnil := List.append_right_eq_self.mp hput.symm
    obtain ⟨hrest, hslash⟩ := List.append_eq_nil_iff.mp hnil
    have hname : name = String.ofList c.start := by
      rw [← String.toList_inj, String.toList_ofList, ← hfits.start_append_rest, hrest,
        List.append_nil]
    subst hname
    refine ⟨hfits, ?_⟩
    cases hgoes : c.goesOn (String.ofList c.start) with
    | true =>
      rw [hgoes] at hslash
      cases hslash
    | false => rfl
  · rintro ⟨hfits, hgoes⟩
    refine ⟨_, hfits, ?_⟩
    have hrest : c.rest (String.ofList c.start) = [] := by
      rw [Choice.rest, String.toList_ofList, List.drop_length]
    rw [hrest, hgoes]
    exact (List.append_nil word).symm

/-- What is shown of a name among several: the base of the completed word, the name, and a slash if
it was seen to go on. -/
def shown (c : Choice) (seen : String → Bool) (name : String) : String :=
  String.ofList c.base ++ if seen name then name ++ "/" else name

/-- What is shown of a name goes on with the rest of it where the word ends. -/
theorem toList_shown (h : c.Fits name) :
    (c.shown seen name).toList = c.base ++ c.start ++ (c.rest name ++ slash (seen name)) := by
  rw [shown, String.toList_append, String.toList_ofList, List.append_assoc,
    ← List.append_assoc c.start, h.start_append_rest]
  cases seen name
  · simp [slash]
  · rw [if_pos rfl, String.toList_append]
    rfl

/-- What is put in for a name alone: the word, the rest of the name, and a slash if it was seen to
go on; blanks at the end are taken off. -/
def put (c : Choice) (seen : String → Bool) (word : List Char) (name : String) : String :=
  String.ofList (Text.trimEndOf ' ' (word ++ (c.rest name ++ if seen name then ['/'] else [' '])))

/-- What is put in for a name alone extends the line just if the name goes on as was seen, and does
not end with a blank unless it goes on. -/
theorem extends_put_iff (hword : word <:+ line) (hblank : word.getLast? ≠ some ' ')
    (hstart : c.start.getLast? ≠ some ' ') (honly : ∀ other, c.Fits other ↔ other = name)
    (hseen : seen name = true → c.goesOn name = true) :
    c.Extends line word (c.put seen word name) ↔
      seen name = c.goesOn name ∧ (c.goesOn name = false → name.toList.getLast? ≠ some ' ') := by
  have hfits : c.Fits name := (honly name).mpr rfl
  -- where nothing is left of the name, neither it nor the word ends with a blank
  have hlast : (word ++ c.rest name).getLast? = some ' ' ↔ name.toList.getLast? = some ' ' := by
    rw [← hfits.start_append_rest]
    cases hrest : c.rest name with
    | nil =>
      rw [List.append_nil, List.append_nil]
      exact iff_of_false hblank hstart
    | cons d ds =>
      rw [List.getLast?_append_of_ne_nil _ (List.cons_ne_nil d ds),
        List.getLast?_append_of_ne_nil _ (List.cons_ne_nil d ds)]
  have hextends : c.Extends line word (c.put seen word name) ↔
      Text.trimEndOf ' ' (word ++ (c.rest name ++ if seen name then ['/'] else [' '])) =
        word ++ (c.rest name ++ slash (c.goesOn name)) := by
    rw [extends_iff hword, put, String.toList_ofList]
    constructor
    · rintro ⟨other, hother, hput⟩
      rwa [(honly other).mp hother] at hput
    · exact fun hput => ⟨name, hfits, hput⟩
  rw [hextends, ← List.append_assoc, ← List.append_assoc]
  cases hs : seen name with
  | true =>
    have hslash : (word ++ c.rest name ++ ['/']).getLast? ≠ some ' ' := by
      rw [List.getLast?_concat]
      decide
    rw [hseen hs, if_pos rfl, Text.trimEndOf_of_getLast?_ne hslash]
    simp [slash]
  | false =>
    rw [if_neg Bool.false_ne_true, Text.trimEndOf_concat_self]
    cases hgoes : c.goesOn name with
    | true =>
      have hle := Text.length_trimEndOf_le ' ' (word ++ c.rest name)
      refine iff_of_false (fun he => ?_) fun h => nomatch h.1
      have hlength := congrArg List.length he
      rw [slash, if_pos rfl, List.length_append, List.length_singleton] at hlength
      omega
    | false =>
      have hnone : slash false = [] := rfl
      rw [hnone, List.append_nil, Text.trimEndOf_eq_self_iff, Ne, hlast]
      simp

/-- A text without a character does not end with it, whatever stands in front. -/
theorem getLast?_append_ne {d : Char} {cs ds : List Char} (hne : ds ≠ []) (h : d ∉ ds) :
    (cs ++ ds).getLast? ≠ some d := by
  rw [List.getLast?_append_of_ne_nil cs hne]
  exact fun hlast => h (List.mem_of_getLast? hlast)

/-- What stands behind a name can be told from what is put in for it: no slash is in a name, and no
name is empty. -/
theorem seen_eq_goesOn {other : String} (hword : word <:+ line)
    (htoken : c.base ++ c.start <:+ line) (hfits : c.Fits name) (hother : c.Fits other)
    (hname : name ≠ "" ∧ '/' ∉ name.toList) (hnameOther : other ≠ "" ∧ '/' ∉ other.toList)
    (heq : c.base ++ c.start ++ (c.rest name ++ slash (seen name)) =
      word ++ (c.rest other ++ slash (c.goesOn other))) : seen name = c.goesOn other := by
  have hshown : (c.base ++ c.start ++ c.rest name).getLast? ≠ some '/' := by
    rw [List.append_assoc, hfits.start_append_rest]
    exact getLast?_append_ne (mt String.toList_eq_nil_iff.mp hname.1) hname.2
  have hput : (word ++ c.rest other).getLast? ≠ some '/' := by
    have hsplit := hother.start_append_rest
    cases hrest : c.rest other with
    | cons d ds =>
      rw [hrest] at hsplit
      exact getLast?_append_ne (List.cons_ne_nil d ds) fun hmem =>
        hnameOther.2 (hsplit ▸ List.mem_append_right _ hmem)
    | nil =>
      -- the whole name is there, so the line ends with it, and so does the word, if it is not empty
      rw [hrest, List.append_nil] at hsplit
      rw [List.append_nil]
      intro hlast
      have hne : c.start ≠ [] := hsplit ▸ mt String.toList_eq_nil_iff.mp hnameOther.1
      obtain ⟨before, rfl⟩ := hword
      obtain ⟨kept, hkept⟩ := htoken
      have hend := congrArg List.getLast? hkept
      have hword : word ≠ [] := by
        rintro rfl
        cases hlast
      rw [← List.append_assoc, List.getLast?_append_of_ne_nil _ hword, hlast] at hend
      exact getLast?_append_ne hne (hsplit ▸ hnameOther.2) hend
  rw [← List.append_assoc, ← List.append_assoc] at heq
  have hend := congrArg List.getLast? heq
  cases hs : seen name <;> cases hg : c.goesOn other
  · rfl
  · rw [hs, hg, slash, slash, if_neg Bool.false_ne_true, if_pos rfl, List.append_nil,
      List.getLast?_concat] at hend
    exact absurd hend hshown
  · rw [hs, hg, slash, slash, if_neg Bool.false_ne_true, if_pos rfl, List.append_nil,
      List.getLast?_concat] at hend
    exact absurd hend.symm hput
  · rfl

/-- Where nothing is taken off, what is shown for each of some names extends the line just if the
word of the editor is the completed word and the names go on as was seen. -/
theorem forall_extends_shown_iff (hword : word <:+ line) (htoken : c.base ++ c.start <:+ line)
    (hall : ∀ name, c.Fits name ↔ name ∈ bare) (hne : bare ≠ [])
    (hnames : (∀ name, c.goesOn name = false) ∨
      ∀ name, c.Fits name → name ≠ "" ∧ '/' ∉ name.toList)
    (hseen : ∀ name, c.Fits name → seen name = true → c.goesOn name = true) :
    (∀ name ∈ bare, c.Extends line word (c.shown seen name)) ↔
      word = c.base ++ c.start ∧ ∀ name ∈ bare, seen name = c.goesOn name := by
  constructor
  · intro hextends
    -- what is shown for a name is the word with the rest of perhaps another name
    have hmatch : ∀ name ∈ bare, ∃ other ∈ bare, seen name = c.goesOn other ∧
        c.base ++ c.start ++ c.rest name = word ++ c.rest other := by
      intro name hmem
      have hfits := (hall name).mpr hmem
      obtain ⟨other, hother, heq⟩ := (extends_iff hword).mp (hextends name hmem)
      rw [toList_shown hfits] at heq
      have hslash : seen name = c.goesOn other := by
        rcases hnames with hnone | hnames
        · rw [hnone other, ← Bool.not_eq_true]
          exact fun hs => absurd (hseen name hfits hs) (by rw [hnone]; exact Bool.false_ne_true)
        · exact seen_eq_goesOn hword htoken hfits hother (hnames name hfits) (hnames other hother)
            heq
      rw [hslash, ← List.append_assoc, ← List.append_assoc] at heq
      exact ⟨other, (hall other).mp hother, hslash, List.append_cancel_right heq⟩
    have hlength : ∀ name ∈ bare, ∃ other ∈ bare,
        (c.base ++ c.start).length + (c.rest name).length =
          word.length + (c.rest other).length := by
      intro name hmem
      obtain ⟨other, hother, -, heq⟩ := hmatch name hmem
      have hlengths := congrArg List.length heq
      simp only [List.length_append] at hlengths ⊢
      exact ⟨other, hother, hlengths⟩
    have hnonempty : bare.toFinset.Nonempty := List.toFinset_nonempty_iff bare |>.mpr hne
    -- the longest rest bounds the length of the word from below, and the shortest from above
    obtain ⟨longest, hlongest, hmax⟩ :=
      Finset.exists_max_image bare.toFinset (fun name => (c.rest name).length) hnonempty
    obtain ⟨shortest, hshortest, hmin⟩ :=
      Finset.exists_min_image bare.toFinset (fun name => (c.rest name).length) hnonempty
    have hle : (c.base ++ c.start).length ≤ word.length := by
      obtain ⟨other, hother, heq⟩ := hlength longest (List.mem_toFinset.mp hlongest)
      have hother := hmax other (List.mem_toFinset.mpr hother)
      omega
    have hge : word.length ≤ (c.base ++ c.start).length := by
      obtain ⟨other, hother, heq⟩ := hlength shortest (List.mem_toFinset.mp hshortest)
      have hother := hmin other (List.mem_toFinset.mpr hother)
      omega
    have hsame : word = c.base ++ c.start :=
      (List.suffix_of_suffix_length_le hword htoken hge).eq_of_length_le hle
    refine ⟨hsame, fun name hmem => ?_⟩
    obtain ⟨other, hother, hslash, heq⟩ := hmatch name hmem
    rw [hsame] at heq
    have hname : name = other :=
      ((hall name).mpr hmem).eq_of_rest ((hall other).mpr hother) (List.append_cancel_left heq)
    rw [hslash, hname]
  · rintro ⟨rfl, hsame⟩ name hmem
    have hfits := (hall name).mpr hmem
    rw [extends_iff hword]
    exact ⟨name, hfits, by rw [toList_shown hfits, hsame name hmem]⟩

/-- Names go on as was seen just if it is told of one that does, where there is one. -/
theorem forall_seen_iff {told : Prop} (hall : ∀ name, c.Fits name ↔ name ∈ bare)
    (hseen : ∀ name, c.Fits name → (seen name = true ↔ c.goesOn name = true ∧ told)) :
    (∀ name ∈ bare, seen name = c.goesOn name) ↔
      ((∃ name, c.Fits name ∧ c.goesOn name = true) → told) := by
  constructor
  · rintro h ⟨name, hname, hgoes⟩
    have hsame := h name ((hall name).mp hname)
    exact ((hseen name hname).mp (hsame.trans hgoes)).2
  · intro h name hmem
    have hname := (hall name).mpr hmem
    rw [Bool.eq_iff_iff, hseen name hname]
    exact ⟨And.left, fun hgoes => ⟨hgoes, h ⟨name, hname, hgoes⟩⟩⟩

/-- What the line editor is given for some names: what is put in for the only one, or what is shown
of each. -/
def given (c : Choice) (seen : String → Bool) (word : List Char) : List String → List String
  | [] => []
  | [name] => [c.put seen word name]
  | first :: second :: others => (first :: second :: others).map (c.shown seen)

/-- There are no candidates just if no name fits. -/
theorem given_eq_nil_iff : c.given seen word bare = [] ↔ bare = [] := by
  match bare with
  | [] => exact iff_of_true rfl rfl
  | [name] => exact iff_of_false (List.cons_ne_nil _ _) (List.cons_ne_nil _ _)
  | first :: second :: others => exact iff_of_false (List.cons_ne_nil _ _) (List.cons_ne_nil _ _)

/-- What the line editor is given for the names that fit extends the line just if a name alone keeps
its end, the word of the editor is the completed word where there are several, and the names go on
as was seen. -/
theorem forall_extends_given_iff (hword : word <:+ line) (htoken : c.base ++ c.start <:+ line)
    (hblank : word.getLast? ≠ some ' ') (hstart : c.start.getLast? ≠ some ' ')
    (hall : ∀ name, c.Fits name ↔ name ∈ bare) (hbare : bare.Pairwise (· < ·))
    (hnames : (∀ name, c.goesOn name = false) ∨
      ∀ name, c.Fits name → name ≠ "" ∧ '/' ∉ name.toList)
    (hseen : ∀ name, c.Fits name → seen name = true → c.goesOn name = true) :
    (∀ candidate ∈ c.given seen word bare, c.Extends line word candidate) ↔
      (∀ name, (∀ other, c.Fits other ↔ other = name) → c.goesOn name = false →
        name.toList.getLast? ≠ some ' ') ∧
      ((∃ name other, c.Fits name ∧ c.Fits other ∧ name ≠ other) → word = c.base ++ c.start) ∧
      ∀ name ∈ bare, seen name = c.goesOn name := by
  match bare with
  | [] =>
    have hnone : ∀ name, ¬ c.Fits name := fun name hname => List.not_mem_nil ((hall name).mp hname)
    refine iff_of_true (fun _ h => absurd h List.not_mem_nil) ⟨fun name honly => ?_, ?_, ?_⟩
    · exact absurd ((honly name).mpr rfl) (hnone name)
    · exact fun ⟨name, _, hname, _⟩ => absurd hname (hnone name)
    · exact fun _ h => absurd h List.not_mem_nil
  | [name] =>
    have honly : ∀ other, c.Fits other ↔ other = name := fun other =>
      (hall other).trans List.mem_singleton
    have hname : c.Fits name := (honly name).mpr rfl
    rw [given, List.forall_mem_singleton, List.forall_mem_singleton,
      extends_put_iff hword hblank hstart honly (hseen name hname)]
    constructor
    · rintro ⟨hsees, hend⟩
      refine ⟨fun other hother => (honly other).mp ((hother other).mpr rfl) ▸ hend, ?_, hsees⟩
      rintro ⟨first, second, hfirst, hsecond, hne⟩
      exact absurd (((honly first).mp hfirst).trans ((honly second).mp hsecond).symm) hne
    · exact fun ⟨hend, _, hsees⟩ => ⟨hsees, hend name honly⟩
  | first :: second :: others =>
    have hlt : first < second := (List.pairwise_cons.mp hbare).1 second List.mem_cons_self
    have hfirst : c.Fits first := (hall first).mpr List.mem_cons_self
    have hsecond : c.Fits second := (hall second).mpr (List.mem_cons_of_mem _ List.mem_cons_self)
    rw [given, List.forall_mem_map,
      forall_extends_shown_iff hword htoken hall (List.cons_ne_nil _ _) hnames hseen]
    constructor
    · rintro ⟨hwords, hsees⟩
      refine ⟨fun name honly => ?_, fun _ => hwords, hsees⟩
      exact absurd (((honly first).mp hfirst).trans ((honly second).mp hsecond).symm) hlt.ne
    · exact fun ⟨_, hwords, hsees⟩ => ⟨hwords ⟨first, second, hfirst, hsecond, hlt.ne⟩, hsees⟩

end Choice

namespace Session

variable {s : Session} {line : String} {name : String}

/-- What a path at the end of a line asks for, from any working directory. -/
def entryChoice (s : Session) (token : List Char) : Choice where
  base := PathEnd.basePart token
  start := PathEnd.namePart token
  IsName name := s.volume.tree.find? (s.listedOf (PathEnd.basePart token) ++ [name]) ≠ none
  goesOn name := s.volume.tree.item?.isDirectory (s.listedOf (PathEnd.basePart token) ++ [name])

/-- What fits is the name of an entry that begins with what was typed of it. -/
theorem fits_entryChoice_iff {token : List Char} :
    (s.entryChoice token).Fits name ↔
      s.volume.tree.find? (s.listedOf (PathEnd.basePart token) ++ [name]) ≠ none ∧
        PathEnd.namePart token <+: name.toList :=
  Iff.rfl

/-- What fits when names are looked up from the directory is the name of an entry as well. -/
theorem fits_listedChoice_iff {token : List Char} :
    (s.listedChoice token).Fits name ↔
      s.volume.tree.find? (s.listedOf (PathEnd.basePart token) ++ [name]) ≠ none ∧
        PathEnd.namePart token <+: name.toList :=
  Iff.rfl

/-- What the end of a line asks for, from any working directory. -/
def offered (s : Session) (line : List Char) : Choice :=
  if LineEnd.AtCommand line then s.commandChoice (LineEnd.token line)
  else s.entryChoice (LineEnd.token line)

/-- What the end of a line asks for, as it is looked up. -/
def lookedUp (s : Session) (line : List Char) : Choice :=
  if LineEnd.AtCommand line then s.commandChoice (LineEnd.token line)
  else s.listedChoice (LineEnd.token line)

/-- The path at the end of a line leaves no dots of the working directory. -/
def LeavesNoDots (s : Session) (line : List Char) : Prop :=
  ∀ x ∈ s.directoryOf (PathEnd.basePart (LineEnd.token line)), x ≠ "." ∧ x ≠ ".."

/-- At a command the names of commands are offered. -/
theorem offered_of_atCommand {line : List Char} (h : LineEnd.AtCommand line) :
    s.offered line = s.commandChoice (LineEnd.token line) :=
  if_pos h

/-- Elsewhere the entries of a directory are offered. -/
theorem offered_of_not_atCommand {line : List Char} (h : ¬ LineEnd.AtCommand line) :
    s.offered line = s.entryChoice (LineEnd.token line) :=
  if_neg h

/-- At a command the names of commands are looked up. -/
theorem lookedUp_of_atCommand {line : List Char} (h : LineEnd.AtCommand line) :
    s.lookedUp line = s.commandChoice (LineEnd.token line) :=
  if_pos h

/-- Elsewhere the entries of a directory are looked up as the completer does it. -/
theorem lookedUp_of_not_atCommand {line : List Char} (h : ¬ LineEnd.AtCommand line) :
    s.lookedUp line = s.listedChoice (LineEnd.token line) :=
  if_neg h

/-- What is looked up has the base of what is offered. -/
theorem base_lookedUp (s : Session) (line : List Char) :
    (s.lookedUp line).base = (s.offered line).base := by
  rw [lookedUp, offered]
  split <;> rfl

/-- What is looked up has the beginning of a name of what is offered. -/
theorem start_lookedUp (s : Session) (line : List Char) :
    (s.lookedUp line).start = (s.offered line).start := by
  rw [lookedUp, offered]
  split <;> rfl

/-- The base and the beginning of a name make the word at the end of the line. -/
theorem base_append_start (s : Session) (line : List Char) :
    (s.offered line).base ++ (s.offered line).start = LineEnd.token line := by
  rw [offered]
  split
  · rfl
  · exact PathEnd.basePart_append_namePart _

/-- What can be completed is made of the names that fit, as they are looked up. -/
theorem complete_eq_outcome (ha : s.volume.tree.Addressable) (line : String) :
    ∃ bare : List String, bare.Pairwise (· < ·) ∧
      (∀ name, (s.offered line.toList).Fits name ↔ name ∈ bare) ∧
      s.complete line = (s.lookedUp line.toList).outcome line bare := by
  have hline : String.ofList (LineEnd.context line.toList ++ LineEnd.token line.toList) = line := by
    rw [LineEnd.context_append_token, String.ofList_toList]
  rw [complete, LineEnd.of_eq]
  dsimp only
  by_cases h : LineEnd.AtCommand line.toList
  · have hoffer := completeCommand_eq ha (LineEnd.context line.toList) (LineEnd.token line.toList)
    rw [decide_eq_true h, if_pos rfl, offered_of_atCommand h, lookedUp_of_atCommand h]
    rwa [hline] at hoffer
  · have hoffer :=
      completePath_eq_outcome s (LineEnd.context line.toList) (LineEnd.token line.toList)
    rw [hline] at hoffer
    obtain ⟨bare, hbare, hfits, hcomplete⟩ := hoffer
    rw [decide_eq_false h, if_neg Bool.false_ne_true, lookedUp_of_not_atCommand h]
    refine ⟨bare, hbare, fun name => ?_, hcomplete⟩
    rw [← hfits, offered_of_not_atCommand h, fits_listedChoice_iff, fits_entryChoice_iff]

/-- No command goes on behind its name. -/
theorem goesOn_commandChoice (s : Session) (token : List Char) (name : String) :
    (s.commandChoice token).goesOn name = false :=
  rfl

/-- A name that fits is seen to go on just if it does, and the path leaves no dots: a directory is
looked for below these otherwise, where nothing is. -/
theorem goesOn_lookedUp_iff (ha : s.volume.tree.Addressable) {line : List Char}
    (hfits : (s.offered line).Fits name) :
    (s.lookedUp line).goesOn name = true ↔
      (s.offered line).goesOn name = true ∧ s.LeavesNoDots line := by
  by_cases h : LineEnd.AtCommand line
  · rw [lookedUp_of_atCommand h, offered_of_atCommand h, goesOn_commandChoice]
    simp
  rw [offered_of_not_atCommand h] at hfits ⊢
  have hproper : Path.IsProper name := ha.isProper (fits_entryChoice_iff.mp hfits).1
  rw [lookedUp_of_not_atCommand h, listedChoice, entryChoice, LeavesNoDots, listedOf, directoryOf]
  dsimp only
  have hparts : ∀ x ∈ Path.resolve (s.expandHome (String.ofList
      (PathEnd.basePart (LineEnd.token line)))) s.cwd, x ≠ "" ∧ '/' ∉ x.toList :=
    fun x hx => Path.parts_of_mem_resolve hx
  generalize Path.resolve (s.expandHome (String.ofList (PathEnd.basePart (LineEnd.token line))))
    s.cwd = place at hparts ⊢
  rw [Tree.isDirectory_eq, Path.resolve_of_isProper hproper, Path.base_format_of_parts hparts]
  by_cases hdots : ∀ x ∈ place, x ≠ "." ∧ x ≠ ".."
  · have hplace : ∀ x ∈ place, Path.IsProper x := fun x hx =>
      ⟨(hparts x hx).1, (hdots x hx).1, (hdots x hx).2, (hparts x hx).2⟩
    rw [Path.resolve_format hplace, and_iff_left hdots]
  · refine iff_of_false (fun hdirectory => hdots fun x hx => ?_) fun hboth => hdots hboth.2
    have hfound : s.volume.tree.find? (place ++ [name]) ≠ none := by
      intro hnone
      rw [PathMap.isDirectory, Tree.item?, hnone] at hdirectory
      cases hdirectory
    have hproper := ha.proper_of_find? hfound x (List.mem_append_left [name] hx)
    exact ⟨hproper.ne_dot, hproper.ne_dots⟩

/-! ## Candidates -/

/-- A line that is not completed has no candidates. -/
theorem candidates_of_none {word : String} (h : s.complete line = none) :
    s.candidates word line = [] := by
  rw [candidates, h]

/-- Of a whole line the editor is given what stands behind the part that it keeps. -/
theorem candidates_of_complete {word value : String} {before : List Char}
    (h : s.complete line = some (.complete value)) (hline : line.toList = before ++ word.toList) :
    s.candidates word line =
      [String.ofList (Text.trimEndOf ' ' (value.toList.drop before.length))] := by
  have hstart : (line.length : Int) - word.length = (before.length : Int) := by
    rw [← String.length_toList, ← String.length_toList, hline, List.length_append]
    omega
  rw [candidates, h]
  dsimp only
  rw [hstart, fromPosition, if_neg (Int.not_lt.mpr (Int.natCast_nonneg _)), Int.toNat_natCast]

/-- The candidates of several names are these names behind the base. -/
theorem candidates_of_suggestions {word base : String} {names : List String}
    (h : s.complete line = some (.suggestions names base)) :
    s.candidates word line = names.map (base ++ ·) := by
  rw [candidates, h]

/-- What the line editor is given is made of the names that fit. -/
theorem candidates_eq (ha : s.volume.tree.Addressable) (line : String) :
    ∃ bare : List String, bare.Pairwise (· < ·) ∧
      (∀ name, (s.offered line.toList).Fits name ↔ name ∈ bare) ∧
      s.candidates (String.ofList (LineEnd.editorWord line.toList)) line =
        (s.offered line.toList).given (s.lookedUp line.toList).goesOn
          (LineEnd.editorWord line.toList) bare := by
  obtain ⟨bare, hbare, hfits, hcomplete⟩ := complete_eq_outcome ha line
  have hline := LineEnd.editorContext_append_editorWord line.toList
  refine ⟨bare, hbare, hfits, ?_⟩
  match bare with
  | [] => exact candidates_of_none hcomplete
  | [name] =>
    have hword : line.toList = LineEnd.editorContext line.toList ++
        (String.ofList (LineEnd.editorWord line.toList)).toList := by
      rw [String.toList_ofList, hline]
    rw [candidates_of_complete hcomplete hword, Choice.given, Choice.put, Choice.rest,
      start_lookedUp, String.toList_append, String.toList_append, String.toList_ofList]
    have hdrop : ∀ cs, (line.toList ++ cs).drop (LineEnd.editorContext line.toList).length =
        LineEnd.editorWord line.toList ++ cs := by
      intro cs
      generalize LineEnd.editorContext line.toList = kept at hline ⊢
      generalize LineEnd.editorWord line.toList = word at hline ⊢
      rw [← hline, List.append_assoc, List.drop_left]
    rw [List.append_assoc, hdrop]
    cases (s.lookedUp line.toList).goesOn name <;> rfl
  | first :: second :: others =>
    rw [Choice.outcome_of_several (by simp), base_lookedUp] at hcomplete
    rw [candidates_of_suggestions hcomplete, List.map_map]
    rfl

/-- The names that fit hold no slash and are not empty, unless they are names of commands, of which
none goes on. -/
theorem names_offered (ha : s.volume.tree.Addressable) (line : List Char) :
    (∀ name, (s.offered line).goesOn name = false) ∨
      ∀ name, (s.offered line).Fits name → name ≠ "" ∧ '/' ∉ name.toList := by
  by_cases h : LineEnd.AtCommand line
  · rw [offered_of_atCommand h]
    exact Or.inl fun name => goesOn_commandChoice s _ name
  · rw [offered_of_not_atCommand h]
    refine Or.inr fun name hfits => ?_
    have hproper := ha.isProper (fits_entryChoice_iff.mp hfits).1
    exact ⟨hproper.ne_empty, hproper.no_slash⟩

/-- What the line editor is given for its word at the end of a line, in a tree of proper names:
nothing just if no name fits. All of it extends the line by the rest of a name, and a slash for a
directory, just if a name that alone fits and is not that of a directory does not end with a blank,
and the completed word holds no angle bracket and the editor's word no other blank where several
names fit, and no dots are left of the working directory where a directory fits. -/
theorem candidates_extend_iff (ha : s.volume.tree.Addressable) (line : String) :
    let c := s.offered line.toList
    let word := LineEnd.editorWord line.toList
    (s.candidates (String.ofList word) line = [] ↔ ∀ name, ¬ c.Fits name) ∧
      ((∀ candidate ∈ s.candidates (String.ofList word) line,
          c.Extends line.toList word candidate) ↔
        (∀ name, (∀ other, c.Fits other ↔ other = name) → c.goesOn name = false →
          name.toList.getLast? ≠ some ' ') ∧
        ((∃ name other, c.Fits name ∧ c.Fits other ∧ name ≠ other) →
          (∀ ch ∈ LineEnd.token line.toList, ch ≠ '<' ∧ ch ≠ '>') ∧
            ∀ ch ∈ word, Text.isBlank ch = false) ∧
        ((∃ name, c.Fits name ∧ c.goesOn name = true) → s.LeavesNoDots line.toList)) := by
  dsimp only
  obtain ⟨bare, hbare, hfits, hcandidates⟩ := candidates_eq ha line
  have hseen : ∀ name, (s.offered line.toList).Fits name →
      ((s.lookedUp line.toList).goesOn name = true ↔
        (s.offered line.toList).goesOn name = true ∧ s.LeavesNoDots line.toList) :=
    fun name hname => goesOn_lookedUp_iff ha hname
  have htoken := base_append_start s line.toList
  have hsuffix : LineEnd.editorWord line.toList <:+ line.toList := List.rtakeWhile_suffix _ _
  have htokenSuffix : (s.offered line.toList).base ++ (s.offered line.toList).start <:+
      line.toList := htoken ▸ List.rtakeWhile_suffix _ _
  have hblank : (LineEnd.editorWord line.toList).getLast? ≠ some ' ' := fun hlast =>
    LineEnd.not_mem_editorWord line.toList (List.mem_of_getLast? hlast)
  have hstart : (s.offered line.toList).start.getLast? ≠ some ' ' := fun hlast => by
    have hmem : ' ' ∈ LineEnd.token line.toList :=
      htoken ▸ List.mem_append_right _ (List.mem_of_getLast? hlast)
    exact absurd (LineEnd.isBound_of_mem_token hmem).1 (by decide)
  have hnone : bare = [] ↔ ∀ name, ¬ (s.offered line.toList).Fits name :=
    List.eq_nil_iff_forall_not_mem.trans (forall_congr' fun name => not_congr (hfits name).symm)
  have hextends := Choice.forall_extends_given_iff hsuffix htokenSuffix hblank hstart hfits hbare
    (names_offered ha line.toList) fun name hname h => ((hseen name hname).mp h).1
  rw [Choice.forall_seen_iff hfits hseen, htoken, LineEnd.editorWord_eq_token_iff] at hextends
  rw [hcandidates, Choice.given_eq_nil_iff]
  exact ⟨hnone, hextends⟩

/-! ## Names that are cut short -/

/-- A volume with a directory, a file whose name ends with a blank, and two files with names that
begin alike. -/
def marked : Volume :=
  ((Volume.unsaved (Tree.empty 0) 0).serve
    [⟨1, "/", .edit (.touch "a ")⟩, ⟨2, "/", .edit (.touch "bx")⟩, ⟨3, "/", .edit (.touch "by")⟩,
      ⟨4, "/", .edit (.createDirectory "d")⟩]).2

/-- A session with these files and a working directory. -/
def markedFrom (cwd : String) : Session := start marked ⟨OrderedMap.ofList [("PWD", cwd)]⟩ ⟨∅⟩ ∅

/-- Each entry of this tree can be addressed. -/
theorem addressable_marked : marked.tree.Addressable :=
  Volume.addressable_serve (v := Volume.unsaved (Tree.empty 0) 0) (Tree.wellFormed_empty 0)
    (Tree.addressable_empty 0) _ (by decide +kernel)

/-- These are its entries in order. -/
theorem childNames_marked (path : String) (hpath : Path.resolve path "/" = []) :
    marked.tree.childNames path "/" = .ok ["a ", "bx", "by", "d"] := by
  have hsorted : Text.sorted ["a ", "bx", "by", "d"] = ["a ", "bx", "by", "d"] :=
    Text.sorted_eq (List.Perm.refl _) (by decide +kernel)
  have hdirectory : marked.tree.isDirectory path "/" = true := by
    rw [Tree.isDirectory, hpath]
    decide +kernel
  have hkeys : (marked.tree.lookup (Path.resolve path "/")).map (fun e => e.2.children.keys) =
      some ["a ", "bx", "by", "d"] := by
    rw [hpath]
    decide +kernel
  rw [childNames_eq_sorted hdirectory hkeys, hsorted]

/-- Two names that begin with what is there are put in whole, since the editor's word is the word
that is completed. -/
theorem candidates_extend_by_both :
    (markedFrom "/").volume.tree.Addressable ∧
      ∀ candidate ∈ (markedFrom "/").candidates "b" "cat b",
        ((markedFrom "/").offered "cat b".toList).Extends "cat b".toList ['b'] candidate := by
  obtain ⟨-, hextends⟩ := candidates_extend_iff (s := markedFrom "/") addressable_marked "cat b"
  have hword : LineEnd.editorWord "cat b".toList = ['b'] := by decide +kernel
  have htoken : LineEnd.token "cat b".toList = ['b'] := by decide +kernel
  have hentry : (markedFrom "/").offered "cat b".toList = (markedFrom "/").entryChoice ['b'] := by
    have hcommand : ¬ LineEnd.AtCommand "cat b".toList := by decide +kernel
    rw [offered_of_not_atCommand hcommand, htoken]
  have hfits : ∀ name ∈ ["bx", "by"], ((markedFrom "/").offered "cat b".toList).Fits name := by
    simp only [hentry, fits_entryChoice_iff]
    decide +kernel
  rw [hword] at hextends
  refine ⟨addressable_marked, hextends.mpr ⟨fun name honly => ?_, fun _ => ?_, fun _ => ?_⟩⟩
  · have hx := (honly "bx").mp (hfits "bx" (by decide))
    have hy := (honly "by").mp (hfits "by" (by decide))
    exact absurd (hx.trans hy.symm) (by decide)
  · rw [htoken, List.forall_mem_singleton, List.forall_mem_singleton]
    decide
  · rw [LeavesNoDots]
    decide +kernel

/-- What the line editor is given for a path in the directory with these files. -/
theorem candidates_marked (cwd line : String) (hpath : ¬ LineEnd.AtCommand line.toList)
    (hlisted : (markedFrom cwd).listedOf (PathEnd.basePart (LineEnd.token line.toList)) = []) :
    (markedFrom cwd).candidates (String.ofList (LineEnd.editorWord line.toList)) line =
      ((markedFrom cwd).offered line.toList).given ((markedFrom cwd).lookedUp line.toList).goesOn
        (LineEnd.editorWord line.toList)
        (matching (PathEnd.namePart (LineEnd.token line.toList)) ["a ", "bx", "by", "d"]) := by
  have hascending : ["a ", "bx", "by", "d"].Pairwise (· < ·) := by decide +kernel
  have hlists := Tree.lists_of_childNames (childNames_marked "/" (by decide))
  have hroot : Path.resolve "/" "/" = [] := by decide
  obtain ⟨bare, hbare, hfits, hcandidates⟩ :=
    candidates_eq (s := markedFrom cwd) addressable_marked line
  have hmatching : bare =
      matching (PathEnd.namePart (LineEnd.token line.toList)) ["a ", "bx", "by", "d"] := by
    refine Text.eq_of_ascending hbare (pairwise_matching _ hascending) fun name => ?_
    rw [← hfits, offered_of_not_atCommand hpath, fits_entryChoice_iff, hlisted, mem_matching,
      hlists.mem_iff, hroot]
    rfl
  rw [hcandidates, hmatching]

/-- A blank at the end of a name is cut off with the one behind it; names are put in without what
was typed before a blank that only the completion knows; and no slash is put behind a directory when
two dots are left of the working directory. -/
theorem candidates_lose_characters :
    ((markedFrom "/").candidates "a" "cat a" = ["a"] ∧
        ¬ ((markedFrom "/").offered "cat a".toList).Extends "cat a".toList ['a'] "a") ∧
      ((markedFrom "/").candidates "a\u00a0b" "cat a\u00a0b" = ["bx", "by"] ∧
        ¬ ((markedFrom "/").offered "cat a\u00a0b".toList).Extends "cat a\u00a0b".toList
          "a\u00a0b".toList "bx") ∧
      (markedFrom "/d/..").candidates "d" "cat d" = ["d"] ∧
        ¬ ((markedFrom "/d/..").offered "cat d".toList).Extends "cat d".toList ['d'] "d" := by
  refine ⟨⟨(candidates_marked "/" "cat a" (by decide +kernel)
      (by decide +kernel)).trans (by decide +kernel), fun hextends => ?_⟩,
    ⟨(candidates_marked "/" "cat a\u00a0b" (by decide +kernel)
      (by decide +kernel)).trans (by decide +kernel), fun hextends => ?_⟩,
    (candidates_marked "/d/.." "cat d" (by decide +kernel)
      (by decide +kernel)).trans (by decide +kernel), fun hextends => ?_⟩
  · obtain ⟨hfits, -⟩ := (Choice.extends_word_iff (by decide +kernel)).mp hextends
    have hcommand : ¬ LineEnd.AtCommand "cat a".toList := by decide +kernel
    rw [offered_of_not_atCommand hcommand, fits_entryChoice_iff] at hfits
    exact absurd hfits.1 (by decide +kernel)
  · exact absurd hextends.1 (by decide +kernel)
  · obtain ⟨-, hgoes⟩ := (Choice.extends_word_iff (by decide +kernel)).mp hextends
    exact absurd hgoes (by decide +kernel)

end Session

end TreeShell
