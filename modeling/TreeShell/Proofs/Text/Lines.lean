import TreeShell.Utility.Texts

/-!
# Lines of texts

No line of a text holds a line break. So lines that are put together, each with a line feed behind
it, are cut into the same lines again, whatever breaks they were cut at before. A choice of lines
that is made of chosen lines is the choice of those that both choose.
-/

namespace TreeShell

namespace Text

/-- No character of a line is a line break. -/
def Unbroken (l : List Char) : Prop := ∀ c ∈ l, isLineBreak c = false

/-- Lines put together, each with a line feed behind it. -/
def unlines (ls : List (List Char)) : List Char := ls.flatMap (· ++ ['\n'])

/-- Lines stay without breaks when a character that is none is put in front. -/
theorem unbroken_of_mem_consLine {c : Char} (hc : isLineBreak c = false) {ls : List (List Char)}
    (h : ∀ l ∈ ls, Unbroken l) : ∀ l ∈ consLine c ls, Unbroken l := by
  intro l hl
  cases ls with
  | nil =>
    cases List.mem_singleton.mp hl
    exact List.forall_mem_cons.mpr ⟨hc, fun _ hm => by cases hm⟩
  | cons first rest =>
    rcases List.mem_cons.mp hl with rfl | hl
    · exact List.forall_mem_cons.mpr ⟨hc, h first List.mem_cons_self⟩
    · exact h l (List.mem_cons_of_mem _ hl)

/-- The lines of a text hold no line breaks. -/
theorem unbroken_of_mem_lines {cs : List Char} : ∀ l ∈ lines cs, Unbroken l := by
  induction cs using lines.induct with
  | case1 => exact fun l hl => by cases hl
  | case2 cs ih =>
    rw [lines]
    exact List.forall_mem_cons.mpr ⟨fun _ hm => (by cases hm), ih⟩
  | case3 c cs hcr hbreak ih =>
    rw [lines.eq_3 c cs hcr, if_pos hbreak]
    exact List.forall_mem_cons.mpr ⟨fun _ hm => (by cases hm), ih⟩
  | case4 c cs hcr hbreak ih =>
    rw [lines.eq_3 c cs hcr, if_neg hbreak]
    exact unbroken_of_mem_consLine (Bool.not_eq_true _ ▸ hbreak) ih

/-- A line that is followed by a line feed is the first of the lines. -/
theorem lines_append_newline {l : List Char} (h : Unbroken l) (rest : List Char) :
    lines (l ++ '\n' :: rest) = l :: lines rest := by
  induction l with
  | nil =>
    rw [List.nil_append, lines.eq_3 _ _ fun _ hc _ => absurd hc (by decide)]
    rfl
  | cons c l ih =>
    obtain ⟨hc, hl⟩ := List.forall_mem_cons.mp h
    have hcr : ∀ cs, c = '\r' → l ++ '\n' :: rest = '\n' :: cs → False := by
      rintro cs rfl
      exact absurd hc (by decide)
    rw [List.cons_append, lines.eq_3 _ _ hcr, if_neg (by rw [hc]; exact Bool.false_ne_true),
      ih hl, consLine]

/-- Lines without breaks are cut at the line feeds behind them. -/
theorem lines_unlines {ls : List (List Char)} (h : ∀ l ∈ ls, Unbroken l) :
    lines (unlines ls) = ls := by
  induction ls with
  | nil => rfl
  | cons l ls ih =>
    obtain ⟨hl, hls⟩ := List.forall_mem_cons.mp h
    rw [unlines, List.flatMap_cons, List.append_assoc, List.singleton_append,
      lines_append_newline hl]
    exact congrArg (l :: ·) (ih hls)

end Text

namespace Utility.LineFilter

/-- The lines that a filter prints of a text. -/
def printed (f : LineFilter) (text : String) : String :=
  String.ofList (Text.unlines (f.select text))

/-- The filter that chooses just what another does not. -/
def inverted (f : LineFilter) : LineFilter := { f with invert := !f.invert }

/-- The positions of the lines that are chosen. -/
def positions (f : LineFilter) (text : String) : List Nat :=
  (List.range (Text.lines text.toList).length).filter fun i =>
    ((Text.lines text.toList)[i]?).any f.chooses

/-- The lines that a filter selects have no breaks. -/
theorem unbroken_of_mem_select {f : LineFilter} {text : String} :
    ∀ l ∈ f.select text, Text.Unbroken l :=
  fun l hl => Text.unbroken_of_mem_lines l (List.mem_filter.mp hl |>.1)

/-- An inverted filter chooses the other lines. -/
theorem chooses_inverted (f : LineFilter) (l : List Char) :
    f.inverted.chooses l = !f.chooses l := by
  rw [chooses, chooses, inverted]
  cases f.invert <;> simp

/-- The positions of a filter are those of the lines it chooses. -/
theorem mem_positions {f : LineFilter} {text : String} {i : Nat} :
    i ∈ f.positions text ↔ ∃ l, (Text.lines text.toList)[i]? = some l ∧ f.chooses l = true := by
  rw [positions, List.mem_filter, List.mem_range, Option.any_eq_true]
  constructor
  · exact fun h => h.2
  · rintro ⟨l, hl, hf⟩
    exact ⟨(List.getElem?_eq_some_iff.mp hl).1, l, hl, hf⟩

/-- A filter that is turned around chooses the lines at all the other positions. -/
theorem mem_positions_inverted (f : LineFilter) {text : String} {i : Nat}
    (hi : i < (Text.lines text.toList).length) :
    i ∈ f.inverted.positions text ↔ i ∉ f.positions text := by
  simp only [mem_positions, List.getElem?_eq_getElem hi, Option.some.injEq, exists_eq_left',
    chooses_inverted]
  simp

end Utility.LineFilter

/-- What is chosen of a list stands at the positions where something is chosen. -/
theorem filter_eq_filterMap_positions {α : Type} (p : α → Bool) (l : List α) :
    l.filter p = ((List.range l.length).filter fun i => l[i]?.any p).filterMap (l[·]?) := by
  induction l with
  | nil => rfl
  | cons a l ih =>
    rw [List.length_cons, List.range_succ_eq_map, List.filter_cons, List.filter_cons,
      List.filter_map, ih]
    by_cases ha : p a = true
    · simp [ha, List.filterMap_map, Function.comp_def]
    · simp [ha, List.filterMap_map, Function.comp_def]

/-- What a filter selects are the lines at its positions, in order. -/
theorem Utility.LineFilter.select_eq_filterMap (f : LineFilter) (text : String) :
    f.select text = (f.positions text).filterMap ((Text.lines text.toList)[·]?) :=
  filter_eq_filterMap_positions f.chooses _

end TreeShell
