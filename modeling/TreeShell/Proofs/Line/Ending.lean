import Mathlib.Data.List.DropRight
import TreeShell.Completion
import TreeShell.Proofs.Path

/-!
# The end of a line

What is to be completed is told by three cuts, each as far to the right as it can be: the word at
the end of a line stands after its last blank or bar, the stage so far after its last bar, and the
name in a path after its last slash. The word is a command if nothing but blanks stands before it in
its stage.
-/

namespace TreeShell

namespace Text

variable {p : Char → Bool} {sep c : Char} {cs ds w : List Char}

/-! ## Cuts at the right -/

/-- What is left when characters are taken off the end is nothing, or ends with another one. -/
theorem rdropWhile_cases (p : Char → Bool) (cs : List Char) :
    cs.rdropWhile p = [] ∨ ∃ before c, cs.rdropWhile p = before ++ [c] ∧ p c = false := by
  rcases List.eq_nil_or_concat' (cs.rdropWhile p) with hnil | ⟨before, c, hc⟩
  · exact Or.inl hnil
  · have hne : cs.rdropWhile p ≠ [] := hc ▸ List.concat_ne_nil c before
    have hlast := List.rdropWhile_last_not p cs hne
    refine Or.inr ⟨before, c, hc, ?_⟩
    simp only [hc, List.getLast_append_singleton] at hlast
    exact eq_false_of_ne_true hlast

/-- What all is taken from the end goes along with what is taken before it. -/
theorem rtakeWhile_append_of_all (h : ∀ c ∈ ds, p c = true) :
    (cs ++ ds).rtakeWhile p = cs.rtakeWhile p ++ ds := by
  induction ds using List.reverseRecOn with
  | nil => rw [List.append_nil, List.append_nil]
  | append_singleton ds d ih =>
    have hd : p d = true := h d (List.mem_append_right ds List.mem_cons_self)
    have hds : ∀ c ∈ ds, p c = true := fun c hc => h c (List.mem_append_left [d] hc)
    rw [← List.append_assoc, List.rtakeWhile_concat_pos p _ d hd, ih hds, List.append_assoc]

/-- A text without the separator is not cut. -/
theorem cutLast_of_not_mem (h : sep ∉ cs) : cutLast sep cs = (none, cs) := by
  induction cs with
  | nil => rfl
  | cons c cs ih =>
    rw [List.mem_cons, not_or] at h
    rw [cutLast, ih h.2]
    exact if_neg (Ne.symm h.1)

/-- A text is cut at the last separator. -/
theorem cutLast_append (h : sep ∉ ds) : cutLast sep (cs ++ sep :: ds) = (some cs, ds) := by
  induction cs with
  | nil =>
    rw [List.nil_append, cutLast, cutLast_of_not_mem h]
    exact if_pos rfl
  | cons c cs ih => rw [List.cons_append, cutLast, ih]

/-- There is no separator in what follows the last one. -/
theorem not_mem_rtakeWhile (sep : Char) (cs : List Char) : sep ∉ cs.rtakeWhile (· != sep) := by
  intro hmem
  have hne := List.mem_rtakeWhile_imp hmem
  rw [bne_self_eq_false] at hne
  exact Bool.false_ne_true hne

/-- Either a text has no separator, or it is cut at the last one. -/
theorem cutLast_cases (sep : Char) (cs : List Char) :
    (cs.rdropWhile (· != sep) = [] ∧ cutLast sep cs = (none, cs.rtakeWhile (· != sep))) ∨
      ∃ before, cs.rdropWhile (· != sep) = before ++ [sep] ∧
        cutLast sep cs = (some before, cs.rtakeWhile (· != sep)) := by
  have hcs := List.rdropWhile_append_rtakeWhile (p := (· != sep)) (l := cs)
  have hafter := not_mem_rtakeWhile sep cs
  rcases rdropWhile_cases (· != sep) cs with hnil | ⟨before, c, hc, hsep⟩
  · rw [hnil, List.nil_append] at hcs
    refine Or.inl ⟨hnil, ?_⟩
    nth_rewrite 1 [← hcs]
    exact cutLast_of_not_mem hafter
  · obtain rfl : c = sep := by simpa using hsep
    refine Or.inr ⟨before, hc, ?_⟩
    rw [hc, List.append_assoc] at hcs
    nth_rewrite 1 [← hcs]
    exact cutLast_append hafter

/-- What follows the last separator is the longest end without one. -/
theorem cutLast_snd (sep : Char) (cs : List Char) :
    (cutLast sep cs).2 = cs.rtakeWhile (· != sep) := by
  rcases cutLast_cases sep cs with ⟨-, hcut⟩ | ⟨before, -, hcut⟩
  · rw [hcut]
  · rw [hcut]

/-! ## Words -/

/-- The words before a blank and the words after it. -/
theorem words_append (h : isBlank c = true) (cs ds : List Char) :
    words (cs ++ c :: ds) = words cs ++ words ds := by
  rw [words, splitWhere_append h cs ds, List.filter_append, words, words]

/-- A blank in front makes no word. -/
theorem words_cons_of_blank (h : isBlank c = true) (cs : List Char) : words (c :: cs) = words cs :=
  words_append h [] cs

/-- A text without blanks is a word. -/
theorem words_of_all_not (h : ∀ c ∈ w, isBlank c = false) (hne : w ≠ []) : words w = [w] := by
  rw [words, splitWhere_of_all_not h, List.filter_cons_of_pos, List.filter_nil]
  rw [Bool.not_eq_true', List.isEmpty_eq_false_iff]
  exact hne

theorem words_nil : words [] = [] := rfl

/-- A text has no words just if it is blank. -/
theorem words_eq_nil_iff : words cs = [] ↔ ∀ c ∈ cs, isBlank c = true := by
  induction cs with
  | nil => exact iff_of_true rfl fun c hc => absurd hc List.not_mem_nil
  | cons c cs ih =>
    rw [List.forall_mem_cons, ← ih]
    by_cases hc : isBlank c = true
    · rw [words_cons_of_blank hc]
      exact (and_iff_right hc).symm
    · refine iff_of_false (fun hnil => ?_) fun hblank => hc hblank.1
      -- the first piece is not empty
      obtain ⟨w, ws, hw⟩ := List.exists_cons_of_ne_nil (splitWhere_ne_nil isBlank cs)
      rw [words, splitWhere, if_neg hc, hw] at hnil
      cases hnil

end Text

namespace LineEnd

/-- Whether a character ends the word that is to be completed: a blank or a bar. -/
def isBound (c : Char) : Bool := Text.isBlank c || c == '|'

/-- The word at the end of a line: what stands after its last blank or bar. -/
def token (line : List Char) : List Char := line.rtakeWhile fun c => !isBound c

/-- What stands before the word at the end of a line. -/
def context (line : List Char) : List Char := line.rdropWhile fun c => !isBound c

/-- What stands before the word at the end of a line in its stage. -/
def stageBefore (line : List Char) : List Char := (context line).rtakeWhile (· != '|')

/-- No other word stands before the one at the end of a line in its stage. -/
def AtCommand (line : List Char) : Prop := ∀ c ∈ stageBefore line, Text.isBlank c = true

instance (line : List Char) : Decidable (AtCommand line) :=
  -- the characters of the line are tested, not all characters that there are
  List.decidableBAll (fun c => Text.isBlank c = true) (stageBefore line)

variable {line : List Char}

/-- The word that is completed is the end of the line. -/
theorem context_append_token (line : List Char) : context line ++ token line = line :=
  List.rdropWhile_append_rtakeWhile

/-- The word that is completed has neither blanks nor bars. -/
theorem isBound_of_mem_token {c : Char} (h : c ∈ token line) :
    Text.isBlank c = false ∧ c ≠ '|' := by
  have hbound := List.mem_rtakeWhile_imp h
  simpa [isBound] using hbound

/-- The stage at the end of the line ends with the word that is completed. -/
theorem stage_eq (line : List Char) :
    (Text.cutLast '|' line).2 = stageBefore line ++ token line := by
  rw [Text.cutLast_snd]
  nth_rewrite 1 [← context_append_token line]
  refine Text.rtakeWhile_append_of_all fun c hc => ?_
  exact bne_iff_ne.mpr (isBound_of_mem_token hc).2

/-- Before the word there is nothing in its stage, or a blank right before it. -/
theorem stageBefore_cases (line : List Char) :
    stageBefore line = [] ∨
      ∃ before c, stageBefore line = before ++ [c] ∧ Text.isBlank c = true := by
  rcases Text.rdropWhile_cases (fun c => !isBound c) line with hnil | ⟨before, c, hc, hbound⟩
  · left
    rw [stageBefore, context, hnil, List.rtakeWhile_nil]
  · by_cases hbar : c = '|'
    · left
      rw [stageBefore, context, hc, List.rtakeWhile_concat_neg]
      rw [hbar, bne_self_eq_false]
      exact Bool.false_ne_true
    · right
      have hblank : Text.isBlank c = true := by simpa [isBound, hbar] using hbound
      refine ⟨before.rtakeWhile (· != '|'), c, ?_, hblank⟩
      rw [stageBefore, context, hc, List.rtakeWhile_concat_pos]
      exact bne_iff_ne.mpr hbar

/-- No word is in part before the end of a line and in part behind it. -/
theorem words_stageBefore_append (line cs : List Char) :
    Text.words (stageBefore line ++ cs) = Text.words (stageBefore line) ++ Text.words cs := by
  rcases stageBefore_cases line with hnil | ⟨before, c, hc, hblank⟩
  · rw [hnil, List.nil_append, Text.words_nil, List.nil_append]
  · rw [hc, List.append_assoc, List.singleton_append, Text.words_append hblank,
      Text.words_append hblank, Text.words_nil, List.append_nil]

/-- The words of a stage are those before the last word, and that one, if it is not empty. -/
theorem words_stage (line : List Char) :
    Text.words (stageBefore line ++ token line) =
      Text.words (stageBefore line) ++ if token line = [] then [] else [token line] := by
  rw [words_stageBefore_append]
  split
  · next hnil =>
    rw [hnil]
    rfl
  · next hne => rw [Text.words_of_all_not (fun c hc => (isBound_of_mem_token hc).1) hne]

/-- A command is completed just if no word stands before in its stage. -/
theorem atCommand_iff : AtCommand line ↔ Text.words (stageBefore line) = [] :=
  Text.words_eq_nil_iff.symm

/-- Where no word has begun, nothing is cut off: the stage is empty or ends with a blank. -/
theorem of_eq_of_no_word (h : token line = []) :
    LineEnd.of line = ⟨line, [], decide (AtCommand line)⟩ := by
  rw [LineEnd.of, stage_eq, words_stage, h, if_pos rfl, List.append_nil, List.append_nil]
  rcases stageBefore_cases line with hnil | ⟨before, c, hc, hblank⟩
  · have hyes : AtCommand line := atCommand_iff.mpr (by rw [hnil, Text.words_nil])
    rw [hnil, Text.words_nil, decide_eq_true hyes]
    rfl
  · have hcommand : AtCommand line ↔ Text.words (before ++ [c]) = [] := hc ▸ atCommand_iff
    rw [hc, List.getLast?_concat]
    cases hwords : (Text.words (before ++ [c])).getLast? with
    | none =>
      have hyes : AtCommand line := hcommand.mpr (List.getLast?_eq_none_iff.mp hwords)
      rw [decide_eq_true hyes]
    | some word =>
      have hno : ¬ AtCommand line := by
        intro hyes
        rw [hcommand.mp hyes] at hwords
        cases hwords
      dsimp only
      rw [if_pos hblank, decide_eq_false hno]

/-- A word that has begun is cut off, and is the last one of its stage. -/
theorem of_eq_of_word (h : token line ≠ []) :
    LineEnd.of line = ⟨context line, token line, decide (AtCommand line)⟩ := by
  have hline := context_append_token line
  have hlast : (stageBefore line ++ token line).getLast? = some ((token line).getLast h) := by
    rw [List.getLast?_append_of_ne_nil _ h, List.getLast?_eq_some_getLast h]
  have hnot := (isBound_of_mem_token (List.getLast_mem h)).1
  have htake : line.take (line.length - (token line).length) = context line := by
    have hlength := congrArg List.length hline
    rw [List.length_append] at hlength
    rw [← hlength, Nat.add_sub_cancel]
    nth_rewrite 2 [← hline]
    exact List.take_left
  have hone : (Text.words (stageBefore line) ++ [token line]).length = 1 ↔ AtCommand line := by
    rw [atCommand_iff, List.length_append, List.length_singleton, Nat.add_eq_right,
      List.length_eq_zero_iff]
  rw [LineEnd.of, stage_eq, words_stage, if_neg h, List.getLast?_concat, hlast]
  dsimp only
  rw [hnot, if_neg Bool.false_ne_true, htake, decide_eq_decide.mpr hone]

/-- The end of a line is cut off at the last blank or bar; it is a command if there are only blanks
before it in its stage. -/
theorem of_eq (line : List Char) :
    LineEnd.of line = ⟨context line, token line, decide (AtCommand line)⟩ := by
  by_cases h : token line = []
  · have hline := context_append_token line
    rw [h, List.append_nil] at hline
    rw [of_eq_of_no_word h, hline, h]
  · exact of_eq_of_word h

end LineEnd

namespace PathEnd

/-- The part of a word up to its last slash, with it. -/
def basePart (word : List Char) : List Char := word.rdropWhile (· != '/')

/-- The part of a word after its last slash. -/
def namePart (word : List Char) : List Char := word.rtakeWhile (· != '/')

/-- A word is its base and the beginning of a name. -/
theorem basePart_append_namePart (word : List Char) : basePart word ++ namePart word = word :=
  List.rdropWhile_append_rtakeWhile

/-- A word is cut at its last slash. The directory is the part before it, without the slash unless
it is the only character; a dot stands for none. -/
theorem of_cases (word : List Char) :
    (basePart word = [] ∧ PathEnd.of word = ⟨[], ['.'], namePart word⟩) ∨
      (basePart word = ['/'] ∧ PathEnd.of word = ⟨['/'], ['/'], namePart word⟩) ∨
        ∃ before, before ≠ [] ∧ basePart word = before ++ ['/'] ∧
          PathEnd.of word = ⟨before ++ ['/'], before, namePart word⟩ := by
  rcases Text.cutLast_cases '/' word with ⟨hnil, hcut⟩ | ⟨before, hbase, hcut⟩
  · exact Or.inl ⟨hnil, by rw [PathEnd.of, hcut]; rfl⟩
  · right
    cases before with
    | nil => exact Or.inl ⟨hbase, by rw [PathEnd.of, hcut]; rfl⟩
    | cons c before =>
      exact Or.inr ⟨c :: before, List.cons_ne_nil c before, hbase, by rw [PathEnd.of, hcut]; rfl⟩

/-- The base of a word is what it has up to its last slash. -/
theorem of_base (word : List Char) : (PathEnd.of word).base = basePart word := by
  rcases of_cases word with ⟨hbase, hof⟩ | ⟨hbase, hof⟩ | ⟨before, -, hbase, hof⟩
  · rw [hof, hbase]
  · rw [hof, hbase]
  · rw [hof, hbase]

/-- The beginning of a name is what follows the last slash. -/
theorem of_start (word : List Char) : (PathEnd.of word).start = namePart word := by
  rcases of_cases word with ⟨-, hof⟩ | ⟨-, hof⟩ | ⟨before, -, -, hof⟩
  · rw [hof]
  · rw [hof]
  · rw [hof]

end PathEnd

end TreeShell
