import TreeShell.Proofs.Line.Ending
import TreeShell.Proofs.Line.Quoting

/-!
# Plain lines

Without quotes every bar of a line is one between stages, and without operators the tokens of a
stage are its words. So the last token of such a line is found by the cuts that find the word at its
end.
-/

namespace TreeShell

namespace Text

variable {cs : List Char}

/-- The last piece of a text is what stands after the last separator. -/
theorem getLast?_splitOn (sep : Char) (cs : List Char) :
    (splitOn sep cs).getLast? = some (cs.rtakeWhile (· != sep)) := by
  have hcs := List.rdropWhile_append_rtakeWhile (p := (· != sep)) (l := cs)
  have hlast := splitOn_of_not_mem (not_mem_rtakeWhile sep cs)
  rcases cutLast_cases sep cs with ⟨hnil, -⟩ | ⟨before, hbefore, -⟩
  · rw [hnil, List.nil_append] at hcs
    rw [hcs] at hlast ⊢
    rw [hlast, List.getLast?_singleton]
  · rw [hbefore, List.append_assoc, List.singleton_append] at hcs
    rw [← hcs, splitOn_append, hlast, List.getLast?_concat, hcs]

theorem words_append_blanks {bs : List Char} (h : ∀ b ∈ bs, isBlank b = true) :
    words (cs ++ bs) = words cs := by
  induction bs generalizing cs with
  | nil => rw [List.append_nil]
  | cons b bs ih =>
    have hb : isBlank b = true := h b List.mem_cons_self
    rw [words_append hb, words_eq_nil_iff.mpr fun c hc => h c (List.mem_cons_of_mem b hc),
      List.append_nil]

theorem words_blanks_append {bs : List Char} (h : ∀ b ∈ bs, isBlank b = true) :
    words (bs ++ cs) = words cs := by
  induction bs with
  | nil => rfl
  | cons b bs ih =>
    rw [List.cons_append, words_cons_of_blank (h b List.mem_cons_self),
      ih fun c hc => h c (List.mem_cons_of_mem b hc)]

/-- The blanks around a text are not in its words. -/
theorem words_trim (cs : List Char) : words (trim cs) = words cs := by
  obtain ⟨bs, bs', hb, hb', hcs, -⟩ := exists_trim cs
  have hall := congrArg words hcs
  rw [words_blanks_append hb, words_append_blanks hb'] at hall
  exact hall.symm

theorem mem_of_mem_trim {c : Char} (h : c ∈ trim cs) : c ∈ cs := by
  obtain ⟨bs, bs', -, -, hcs, -⟩ := exists_trim cs
  rw [hcs]
  exact List.mem_append_right bs (List.mem_append_left bs' h)

end Text

namespace Line

variable {cs : List Char}

/-- A character that means nothing but itself in a stage, outside a word or in one: no quote and no
part of an operator. -/
structure IsPlain (c : Char) : Prop where
  no_quote : isQuote c = false
  no_output : c ≠ '>'
  no_input : c ≠ '<'

/-- Plain characters, told by a test of all of them. -/
theorem isPlain_of_all (h : cs.all (fun c => !isQuote c && (c != '>' && c != '<')) = true) :
    ∀ c ∈ cs, IsPlain c := by
  have hall : ∀ c ∈ cs, isQuote c = false ∧ c ≠ '>' ∧ c ≠ '<' := by simpa using h
  exact fun c hc => ⟨(hall c hc).1, (hall c hc).2.1, (hall c hc).2.2⟩

/-- Without quotes a line is cut at all of its bars. -/
theorem pieces_of_no_quote (h : ∀ c ∈ cs, isQuote c = false) :
    pieces none cs = Text.splitOn '|' cs := by
  induction cs with
  | nil => rfl
  | cons c cs ih =>
    have hrest := ih fun d hd => h d (List.mem_cons_of_mem c hd)
    by_cases hbar : c = '|'
    · rw [hbar, Text.splitOn_cons_self, ← hrest]
      rfl
    · have hstay : quoteAfter none c = none := by
        rw [quoteAfter, h c List.mem_cons_self]
        rfl
      obtain ⟨w, ws, hw, hcons⟩ := Text.splitOn_cons_of_ne hbar cs
      rw [pieces_cons fun _ => hbar, hstay, hrest, hw, hcons, List.modifyHead_cons]

/-- The last stage of a line without quotes is what stands after its last bar, unless that is
blank. -/
theorem getLast?_stages {line : String} (h : ∀ c ∈ line.toList, isQuote c = false)
    (hlast : ¬ ∀ c ∈ line.toList.rtakeWhile (· != '|'), Text.isBlank c = true) :
    (stages line).getLast? =
      some (String.ofList (Text.trim (line.toList.rtakeWhile (· != '|')))) := by
  have hne : Text.trim (line.toList.rtakeWhile (· != '|')) ≠ [] := by
    intro hnil
    refine hlast (Text.words_eq_nil_iff.mp ?_)
    rw [← Text.words_trim, hnil, Text.words_nil]
  obtain ⟨before, hbefore⟩ : ∃ before, pieces none line.toList =
      before ++ [line.toList.rtakeWhile (· != '|')] := by
    rw [pieces_of_no_quote h]
    exact List.getLast?_eq_some_iff.mp (Text.getLast?_splitOn '|' line.toList)
  rw [stages, hbefore, List.map_append, List.filter_append, List.map_append, List.map_singleton,
    List.filter_cons_of_pos (by simpa using hne), List.filter_nil, List.map_singleton,
    List.getLast?_concat]

end Line

namespace Token

open Line

variable {cs : List Char}

/-- The tokens of a text without quotes and operators are its words, behind the word that is being
read. -/
theorem scan_of_plain (h : ∀ c ∈ cs, IsPlain c) :
    scan none none cs = .ok ((Text.words cs).map fun w => .word (String.ofList w) false) ∧
      ∀ text, text ≠ [] → (∀ c ∈ text, Text.isBlank c = false) →
        scan none (some ⟨text, false⟩) cs =
          .ok ((Text.words (text ++ cs)).map fun w => .word (String.ofList w) false) := by
  induction cs with
  | nil =>
    refine ⟨rfl, fun text hne htext => ?_⟩
    rw [List.append_nil, Text.words_of_all_not htext hne]
    rfl
  | cons c cs ih =>
    obtain ⟨hnone, hsome⟩ := ih fun d hd => h d (List.mem_cons_of_mem c hd)
    obtain ⟨hquote, houtput, hinput⟩ := h c List.mem_cons_self
    cases hc : Text.isBlank c with
    | true =>
      refine ⟨?_, fun text hne htext => ?_⟩
      · rw [scan_blank hc, hnone, Text.words_cons_of_blank hc]
        rfl
      · rw [scan_blank hc, hnone, Text.words_append hc, Text.words_of_all_not htext hne]
        rfl
    | false =>
      refine ⟨?_, fun text hne htext => ?_⟩
      · rw [scan_push hquote hc houtput hinput, ← List.singleton_append]
        exact hsome [c] (List.cons_ne_nil c []) (by simpa using hc)
      · have hall : ∀ d ∈ text ++ [c], Text.isBlank d = false := by
          intro d hd
          rcases List.mem_append.mp hd with hd | hd
          · exact htext d hd
          · exact List.mem_singleton.mp hd ▸ hc
        have happend : text ++ c :: cs = text ++ [c] ++ cs := by
          rw [List.append_assoc, List.singleton_append]
        rw [scan_push hquote hc houtput hinput, happend]
        exact hsome (text ++ [c]) (List.concat_ne_nil c text) hall

/-- The tokens of a stage without quotes and operators are its words, in spite of blanks around
them. -/
theorem ofStage_trim (h : ∀ c ∈ cs, IsPlain c) :
    ofStage (String.ofList (Text.trim cs)) =
      .ok ((Text.words cs).map fun w => .word (String.ofList w) false) := by
  have hplain : ∀ c ∈ Text.trim cs, IsPlain c := fun c hc => h c (Text.mem_of_mem_trim hc)
  rw [ofStage, String.toList_ofList, (scan_of_plain hplain).1, Text.words_trim]

end Token

end TreeShell
