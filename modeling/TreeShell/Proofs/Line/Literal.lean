import TreeShell.Line.Redirection
import TreeShell.Proofs.Line.Quoting

/-!
# Texts quoted as words

Any text can be a word of a line: in single quotes, with the single quotes of the text itself put in
double ones. A line that prints such words into a file is one stage, and its words are the texts as
they are, whatever characters they hold.
-/

namespace TreeShell

namespace Line

/-- A character within single quotes: a single quote ends them, stands in double ones, and begins
them again. -/
def spell (c : Char) : List Char := if c = '\'' then ['\'', '"', '\'', '"', '\''] else [c]

/-- The characters of a text quoted as a word. -/
def literalChars (cs : List Char) : List Char := '\'' :: (cs.flatMap spell ++ ['\''])

/-- A text quoted as a word: in single quotes, with each single quote of it in double ones. -/
def literal (text : String) : String := String.ofList (literalChars text.toList)

/-- The operator that writes in place of what a file holds, or behind it. -/
def writing (append : Bool) : Operator := if append then .append else .write

/-- The line that prints texts into a file, in place of what it holds or behind that. -/
def printLine (append : Bool) (texts : List String) (path : String) : String :=
  "echo -n --" ++ String.join (texts.map fun text => " " ++ literal text) ++ " " ++
    (writing append).text ++ " " ++ literal path

/-- The line that shows what a file holds. -/
def showLine (path : String) : String := "cat -- " ++ literal path

/-! ## Quotes -/

/-- What a text is spelled as stays within its quotes. -/
theorem openAfter_flatMap_spell (cs : List Char) :
    openAfter (some '\'') (cs.flatMap spell) = some '\'' ∧
      Barless (some '\'') (cs.flatMap spell) := by
  induction cs with
  | nil => exact ⟨rfl, trivial⟩
  | cons c cs ih =>
    have hone : openAfter (some '\'') (spell c) = some '\'' ∧ Barless (some '\'') (spell c) := by
      by_cases hc : c = '\''
      · subst hc
        refine ⟨rfl, ?_⟩
        simp [spell, Barless, quoteAfter]
      · simp [spell, hc, openAfter, Barless, quoteAfter]
    rw [List.flatMap_cons, openAfter_append, barless_append, hone.1]
    exact ⟨ih.1, hone.2, ih.2⟩

/-- A text that is quoted as a word leaves no quote open and shows no bar. -/
theorem openAfter_literalChars (cs : List Char) :
    openAfter none (literalChars cs) = none ∧ Barless none (literalChars cs) := by
  obtain ⟨hopen, hbar⟩ := openAfter_flatMap_spell cs
  have hfirst : quoteAfter none '\'' = some '\'' := rfl
  rw [literalChars, openAfter_cons, Barless, hfirst, openAfter_append, barless_append, hopen]
  exact ⟨rfl, by decide, hbar, by simp [Barless]⟩

end Line

/-! ## Tokens -/

namespace Token

open Line

/-- Within single quotes a spelled text is read as it is. -/
theorem scan_flatMap_spell (text cs rest : List Char) :
    scan (some '\'') (some ⟨text, true⟩) (cs.flatMap spell ++ '\'' :: rest) =
      scan none (some ⟨text ++ cs, true⟩) rest := by
  induction cs generalizing text with
  | nil => simp [scan]
  | cons c cs ih =>
    rw [List.flatMap_cons, List.append_assoc]
    by_cases hc : c = '\''
    · subst hc
      have hspell : spell '\'' = ['\'', '"', '\'', '"', '\''] := rfl
      simp [hspell, scan, isQuote, Open.quote, Open.push, ih]
    · simp [spell, hc, scan, Open.push, ih]

/-- A text that is quoted as a word is read as that word. -/
theorem scan_literalChars (cs rest : List Char) :
    scan none none (literalChars cs ++ rest) = scan none (some ⟨cs, true⟩) rest := by
  have hquote : scan none none (literalChars cs ++ rest) =
      scan (some '\'') (some ⟨[], true⟩) (cs.flatMap spell ++ '\'' :: rest) := by
    simp [literalChars, scan, isQuote, Open.quote]
  rw [hquote, scan_flatMap_spell, List.nil_append]

/-- Texts quoted as words, each after a blank, are read as these words, after the one before. -/
theorem scan_literals (w : Open) (texts : List String) (rest : List Char) :
    scan none (some w)
        (texts.flatMap (fun text => ' ' :: literalChars text.toList) ++ ' ' :: rest) =
      before (.ok (flush (some w) ++ texts.map (.word · true))) (scan none none rest) := by
  have hblank : Text.isBlank ' ' = true := by decide
  induction texts generalizing w with
  | nil =>
    rw [List.flatMap_nil, List.nil_append, List.map_nil, List.append_nil]
    exact scan_blank hblank (some w) rest
  | cons text texts ih =>
    rw [List.flatMap_cons, List.append_assoc, List.cons_append, scan_blank hblank,
      scan_literalChars, ih]
    cases scan none none rest with
    | error e => rfl
    | ok ts => simp [before, Except.map, flush]

/-- A redirection to a file whose path is quoted as a word. -/
theorem scan_writing (append : Bool) (path : String) :
    scan none none ((writing append).text.toList ++ ' ' :: literalChars path.toList) =
      .ok [.operator (writing append) none, .word path true] := by
  have hpath : scan none none (literalChars path.toList) = .ok [.word path true] := by
    have hscan := scan_literalChars path.toList []
    rw [List.append_nil] at hscan
    rw [hscan]
    simp [scan, flush]
  cases append with
  | true =>
    have htext : Operator.append.text.toList = ['>', '>'] := rfl
    simp [writing, htext, scan, isQuote, Text.isBlank, close, flush, before, Except.map, hpath]
  | false =>
    have htext : Operator.write.text.toList = ['>'] := rfl
    simp [writing, htext, scan, isQuote, Text.isBlank, close, flush, before, Except.map, hpath]

end Token

/-! ## Lines of one stage -/

namespace Line

variable {append : Bool} {texts : List String} {path : String}

/-- The characters of a line that prints texts. -/
theorem toList_printLine (append : Bool) (texts : List String) (path : String) :
    (printLine append texts path).toList =
      "echo -n --".toList ++ (texts.flatMap (fun text => ' ' :: literalChars text.toList) ++
        ' ' :: ((writing append).text.toList ++ ' ' :: literalChars path.toList)) := by
  have hblank : " ".toList = [' '] := rfl
  simp only [printLine, String.toList_append, String.toList_join, List.flatMap_map, literal,
    String.toList_ofList, hblank, List.append_assoc, List.cons_append,
    List.nil_append]

/-- These are the characters of a line that shows a file. -/
theorem toList_showLine (path : String) :
    (showLine path).toList = "cat -- ".toList ++ literalChars path.toList := by
  simp only [showLine, String.toList_append, literal, String.toList_ofList]

/-- Words in front of other tokens. -/
theorem ofTokens_words (texts : List String) (quoted : Bool) (rest : List Token) :
    Parts.ofTokens (texts.map (.word · quoted) ++ rest) =
      (Parts.ofTokens rest).map fun p => { p with words := texts ++ p.words } := by
  induction texts with
  | nil => cases hrest : Parts.ofTokens rest <;> simp [hrest, Except.map]
  | cons text texts ih =>
    rw [List.map_cons, List.cons_append, Parts.ofTokens, ih]
    cases Parts.ofTokens rest <;> rfl

/-- The words in front of the texts are read as they are. -/
theorem scan_echo (rest : List Char) :
    Token.scan none none ("echo -n --".toList ++ rest) =
      Token.before (.ok [.word "echo" false, .word "-n" false])
        (Token.scan none (some ⟨['-', '-'], false⟩) rest) := by
  have hstart : "echo -n --".toList = ['e', 'c', 'h', 'o', ' ', '-', 'n', ' ', '-', '-'] := rfl
  have hecho : String.ofList ['e', 'c', 'h', 'o'] = "echo" := rfl
  have hn : String.ofList ['-', 'n'] = "-n" := rfl
  rw [hstart]
  cases hrest : Token.scan none (some ⟨['-', '-'], false⟩) rest <;>
    simp [Token.scan, isQuote, Text.isBlank, Token.Open.push, Token.before, Except.map,
      Token.flush, hrest, hecho, hn]

/-- The words of a line that prints texts are these texts, and its one redirection leads to the
file. -/
theorem parts_printLine (append : Bool) (texts : List String) (path : String) :
    Parts.ofStage (printLine append texts path) =
      .ok ⟨"echo" :: "-n" :: "--" :: texts, [⟨1, writing append, .file path⟩]⟩ := by
  have htokens : Token.ofStage (printLine append texts path) =
      .ok (["echo", "-n", "--"].map (.word · false) ++
        (texts.map (.word · true) ++ [.operator (writing append) none, .word path true])) := by
    rw [Token.ofStage, toList_printLine, scan_echo, Token.scan_literals, Token.scan_writing]
    rfl
  have hfile : Redirection.ofTokens (writing append) none path true =
      .ok ⟨1, writing append, .file path⟩ := by
    cases append <;> rfl
  rw [Parts.ofStage, htokens]
  dsimp only
  rw [ofTokens_words, ofTokens_words, Parts.ofTokens, hfile]
  simp [Parts.ofTokens, Except.map]

/-- A line that shows a file is read as its words. -/
theorem parts_showLine (path : String) :
    Parts.ofStage (showLine path) = .ok ⟨["cat", "--", path], []⟩ := by
  have hstart : "cat -- ".toList = ['c', 'a', 't', ' ', '-', '-', ' '] := rfl
  have hpath := Token.scan_literalChars path.toList []
  rw [List.append_nil] at hpath
  have htokens : Token.ofStage (showLine path) =
      .ok [.word "cat" false, .word "--" false, .word path true] := by
    rw [Token.ofStage, toList_showLine, hstart]
    simp [Token.scan, isQuote, Text.isBlank, Token.Open.push, hpath, Token.before, Except.map,
      Token.flush]
  rw [Parts.ofStage, htokens]
  rfl

/-- A line without bars outside quotes, and without blanks at its ends, is one stage. -/
theorem stages_of_barless {line : String} (hb : Barless none line.toList)
    (ht : Text.Trimmed line.toList) (hne : line ≠ "") : stages (Text.trimmed line) = [line] := by
  have htrimmed : Text.trimmed line = line := by
    rw [Text.trimmed, Text.trim_of_trimmed ht, String.ofList_toList]
  have hfull : line.toList.isEmpty = false := by simpa using hne
  rw [htrimmed, stages, pieces_of_barless hb]
  simp [Text.trim_of_trimmed ht, hfull, String.ofList_toList]

/-- Characters that are neither quotes nor bars, told by a test of all of them. -/
theorem plain_of_all {cs : List Char} (h : cs.all (fun c => !isQuote c && c != '|') = true) :
    ∀ c ∈ cs, isQuote c = false ∧ c ≠ '|' := by
  simpa using h

/-- A text without quotes and bars leaves nothing open. -/
theorem barless_of_all {cs : List Char} (h : ∀ c ∈ cs, isQuote c = false ∧ c ≠ '|') :
    Barless none cs ∧ openAfter none cs = none := by
  induction cs with
  | nil => exact ⟨trivial, rfl⟩
  | cons c cs ih =>
    obtain ⟨⟨hquote, hbar⟩, hrest⟩ := List.forall_mem_cons.mp h
    have hplain : quoteAfter none c = none := by
      rw [quoteAfter, hquote]
      rfl
    rw [Barless, openAfter_cons, hplain]
    exact ⟨⟨fun _ => hbar, (ih hrest).1⟩, (ih hrest).2⟩

/-- Characters that are no quotes and no bars, a text quoted as a word, and what follows. -/
theorem barless_append_literalChars {cs rest : List Char}
    (h : ∀ c ∈ cs, isQuote c = false ∧ c ≠ '|') (text : List Char) (hrest : Barless none rest) :
    Barless none (cs ++ (literalChars text ++ rest)) := by
  obtain ⟨hopen, hbar⟩ := openAfter_literalChars text
  obtain ⟨hcs, hclosed⟩ := barless_of_all h
  rw [barless_append, hclosed, barless_append, hopen]
  exact ⟨hcs, hbar, hrest⟩

/-- A text that ends with one that is quoted as a word does not end with a blank. -/
theorem trimmed_append_literalChars {c : Char} (hc : Text.isBlank c = false)
    (cs text : List Char) : Text.Trimmed (c :: (cs ++ literalChars text)) where
  head d hd := by
    cases hd
    exact hc
  last d hd := by
    rw [literalChars, ← List.cons_append, ← List.cons_append, ← List.append_assoc,
      List.getLast?_concat] at hd
    cases hd
    rfl

/-- Literals with blanks in front have no bar outside of quotes. -/
theorem barless_flatMap_literalChars (texts : List String) {rest : List Char}
    (hrest : Barless none rest) :
    Barless none (texts.flatMap (fun text => ' ' :: literalChars text.toList) ++ rest) := by
  have hblank : ∀ c ∈ [' '], isQuote c = false ∧ c ≠ '|' := plain_of_all (by decide)
  induction texts with
  | nil => exact hrest
  | cons text texts ih =>
    rw [List.flatMap_cons, List.append_assoc]
    exact barless_append_literalChars hblank text.toList ih

/-- A line that prints texts is one stage. -/
theorem stages_printLine (append : Bool) (texts : List String) (path : String) :
    stages (Text.trimmed (printLine append texts path)) = [printLine append texts path] := by
  have hstart : "echo -n --".toList = 'e' :: "cho -n --".toList := rfl
  have hchars := toList_printLine append texts path
  have hplain : ∀ c ∈ ' ' :: ((writing append).text.toList ++ [' ']),
      isQuote c = false ∧ c ≠ '|' := plain_of_all (by cases append <;> decide)
  have hend : Barless none (' ' :: ((writing append).text.toList ++ ' ' ::
      literalChars path.toList)) := by
    have hlast : Barless none [] := trivial
    simpa using barless_append_literalChars hplain path.toList hlast
  have htexts := barless_flatMap_literalChars texts hend
  have hecho : ∀ c ∈ "echo -n --".toList, isQuote c = false ∧ c ≠ '|' :=
    plain_of_all (by decide)
  obtain ⟨hbar, hclosed⟩ := barless_of_all hecho
  refine stages_of_barless ?_ ?_ ?_
  · rw [hchars, barless_append, hclosed]
    exact ⟨hbar, htexts⟩
  · rw [hchars, hstart]
    have htrimmed := trimmed_append_literalChars (c := 'e') (by decide)
      ("cho -n --".toList ++ (texts.flatMap (fun text => ' ' :: literalChars text.toList) ++
        ' ' :: ((writing append).text.toList ++ [' ']))) path.toList
    simpa [List.append_assoc] using htrimmed
  · rintro he
    rw [he, hstart] at hchars
    cases hchars

/-- A line that shows a file is one stage. -/
theorem stages_showLine (path : String) :
    stages (Text.trimmed (showLine path)) = [showLine path] := by
  have hstart : "cat -- ".toList = 'c' :: "at -- ".toList := rfl
  have hchars := toList_showLine path
  have hplain : ∀ c ∈ "cat -- ".toList, isQuote c = false ∧ c ≠ '|' := plain_of_all (by decide)
  refine stages_of_barless ?_ ?_ ?_
  · rw [hchars]
    have hlast : Barless none [] := trivial
    simpa using barless_append_literalChars hplain path.toList hlast
  · rw [hchars, hstart]
    exact trimmed_append_literalChars (by decide) _ _
  · rintro he
    rw [he, hstart] at hchars
    cases hchars

/-- The first word of a text that begins with a word. -/
theorem firstWord_of_word {word rest : List Char} (hne : word ≠ [])
    (hfull : word.all (fun c => !Text.isBlank c) = true) :
    ∃ rest', Text.firstWord (word ++ ' ' :: rest) = some (word, rest') := by
  have hbegins : Text.Begins (word ++ ' ' :: rest) word (' ' :: rest) :=
    ⟨[], List.forall_mem_nil _, rfl⟩
  have hbreak : Text.Breaks (' ' :: rest) := by
    intro c hc
    cases hc
    decide
  exact ⟨_, Text.firstWord_of_begins hbegins hne (by simpa using hfull) hbreak⟩

/-- A line that prints texts begins with its command. -/
theorem firstWord_printLine (append : Bool) (texts : List String) (path : String) :
    ∃ rest, Text.firstWord (printLine append texts path).toList = some ("echo".toList, rest) := by
  have hstart : "echo -n --".toList = "echo".toList ++ ' ' :: "-n --".toList := rfl
  rw [toList_printLine, hstart, List.append_assoc, List.cons_append]
  exact firstWord_of_word (by decide) (by decide)

/-- A line that shows a file begins with its command. -/
theorem firstWord_showLine (path : String) :
    ∃ rest, Text.firstWord (showLine path).toList = some ("cat".toList, rest) := by
  have hstart : "cat -- ".toList = "cat".toList ++ ' ' :: "-- ".toList := rfl
  rw [toList_showLine, hstart, List.append_assoc, List.cons_append]
  exact firstWord_of_word (by decide) (by decide)

end Line

end TreeShell
