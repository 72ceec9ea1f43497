import TreeShell.Proofs.Session.Feeding
import TreeShell.Proofs.Text.Lines

/-!
# Filters one after another

A stage that filters its input prints the lines that its filter chooses, and succeeds if there are
any. Filters one after another print the lines that all of them choose, in the order of the text,
whatever the order of the filters, and succeed if there are any; so a filter behind itself makes no
difference.
-/

namespace TreeShell

open TreeShell.Action

namespace Utility

variable {ctx : Context} {j : Job} {pattern label text : String} {paths : List String}

theorem LineFilter.printed_eq_join (f : LineFilter) (text : String) :
    f.printed text = String.join ((f.select text).map fun l => String.ofList l ++ "\n") := by
  rw [printed]
  induction f.select text with
  | nil => rfl
  | cons l ls ih =>
    rw [Text.unlines, List.flatMap_cons, String.ofList_append, List.map_cons, String.join_cons,
      String.ofList_append, ← ih]
    rfl

/-- Without files a command gets its input, under no name. -/
theorem prints_inputs (name : String) (hinput : j.pool.heard (.keeper ctx.ends.input) = text)
    (htakes : j.pool.Takes (j.pool.endOf ctx.ends.output)) :
    Prints ctx (inputs ctx name []) "" (some [("", .string text)]) j := by
  have hread := prints_read ctx j
  rw [hinput] at hread
  exact hread.bind_pure htakes fun _ => rfl

/-- To print the chosen lines of a text, one after another. -/
theorem prints_select (f : LineFilter) {front : String} (hfront : front = "") (text : String)
    (htakes : j.pool.Takes (j.pool.endOf ctx.ends.output)) :
    Prints ctx
      (forIn (f.select text) PUnit.unit fun line _ => do
        putLine ctx (front ++ String.ofList line)
        pure (ForInStep.yield PUnit.unit))
      (f.printed text) PUnit.unit j := by
  rw [LineFilter.printed_eq_join]
  refine prints_forIn htakes fun l _ pool hgrows => ?_
  have htakes' := hgrows.takes_endOf htakes
  rw [hfront, String.empty_append]
  exact Prints.bind_pure (prints_putLine htakes' _) htakes' fun _ => rfl

/-- To filter one text is to print the lines that are chosen. -/
theorem prints_grep (ha : ctx.arguments = pattern :: paths)
    (htakes : j.pool.Takes (j.pool.endOf ctx.ends.output))
    (hin : Prints ctx (inputs ctx "grep" paths) "" (some [(label, .string text)]) j)
    {f : LineFilter} (hf : f = ⟨pattern, ctx.flag ["i"], ctx.flag ["v"]⟩) :
    Prints ctx (grep ctx) (f.printed text)
      (if f.select text = [] then failure else success) j := by
  have hcode : (if ([(label, (.string text : Content))].all fun c => (f.select c.2.plain).isEmpty) =
      true then failure else success) = if f.select text = [] then failure else success := by
    simp [Json.plain]
  have hjoin : f.printed text =
      String.join ([(label, (.string text : Content))].map fun _ => f.printed text) := by
    rw [List.map_cons, List.map_nil, String.join_cons, String.join_nil, String.append_empty]
  rw [grep, ha, ← hcode]
  dsimp only
  rw [← hf]
  refine hin.bind_silent htakes fun pool hgrows => ?_
  have htakes' := hgrows.takes_endOf htakes
  refine Prints.bind_pure (a := PUnit.unit) ?_ htakes' fun _ => rfl
  rw [hjoin]
  refine prints_forIn (j := ⟨j.session, pool⟩) htakes' fun c hc pool' hgrows' => ?_
  cases List.mem_singleton.mp hc
  have hcut : result (need (Json.textFor "splitlines" (.string text))) ⟨j.session, pool'⟩ =
      (.ok text, ⟨j.session, pool'⟩) := rfl
  refine (Prints.of_result hcut).bind_silent (hgrows'.takes_endOf htakes') fun pool₂ hgrows₂ => ?_
  have htakes₂ := hgrows₂.takes_endOf (hgrows'.takes_endOf htakes')
  exact Prints.bind_pure (prints_select f (if_neg (by simp)) text htakes₂) htakes₂ fun _ => rfl

namespace LineFilter

/-- The filter that words after a command stand for: a pattern and no files. -/
def ofWords (words : List String) : Option LineFilter :=
  match Options.sort words with
  | ([pattern], options) =>
    some ⟨pattern, ((options.get? "i").map OptionValue.isSet).getD false,
      ((options.get? "v").map OptionValue.isSet).getD false⟩
  | _ => none

/-- The lines of a text that all of some filters choose. -/
def chosen (fs : List LineFilter) (text : String) : List (List Char) :=
  (Text.lines text.toList).filter fun l => fs.all (·.chooses l)

theorem chosen_singleton (f : LineFilter) (text : String) : chosen [f] text = f.select text := by
  simp only [chosen, List.all_cons, List.all_nil, Bool.and_true, select]

/-- What some filters choose of the lines that another prints are the lines that all choose. -/
theorem chosen_printed (f : LineFilter) (fs : List LineFilter) (text : String) :
    chosen fs (f.printed text) = chosen (f :: fs) text := by
  rw [chosen, printed, String.toList_ofList, Text.lines_unlines unbroken_of_mem_select, select,
    List.filter_filter, chosen]
  refine List.filter_congr fun l _ => ?_
  rw [List.all_cons, Bool.and_comm]

/-- The order of the filters makes no difference. -/
theorem chosen_perm {fs fs' : List LineFilter} (h : fs.Perm fs') (text : String) :
    chosen fs text = chosen fs' text :=
  List.filter_congr fun _ _ => h.all_eq

/-- The code of filters: success if they choose any line. -/
def codeOf (fs : List LineFilter) (text : String) : Int :=
  if chosen fs text = [] then failure else success

end LineFilter

end Utility

open Utility

namespace Session

variable {s : Session} {command text : String} {f : LineFilter}

/-- A stage filters its input. -/
def Filters (s : Session) (command : String) (f : LineFilter) : Prop :=
  ∃ name words c, Parts.ofStage (s.expandAlias command) = .ok ⟨name :: words, []⟩ ∧
    s.registry.load s.volume.tree name s.bin = .ok c ∧ c.program = .grep ∧
    LineFilter.ofWords words = some f

/-- A stage that filters prints the lines that are chosen, and succeeds if there are any. -/
theorem Filters.turns (h : s.Filters command f) (text : String) :
    s.Turns command text (f.printed text) (LineFilter.codeOf [f] text) := by
  obtain ⟨name, words, c, hparts, hload, hc, hf⟩ := h
  refine Makes.turns ⟨c, hload, fun j ends _ hready hinput => ?_⟩ hparts
  rw [LineFilter.ofWords] at hf
  split at hf
  · next pattern options hsort =>
    cases hf
    rw [hc, LineFilter.codeOf, LineFilter.chosen_singleton]
    have harguments : (s.contextOf words ends).arguments = [pattern] := by rw [contextOf, hsort]
    have hoptions : (s.contextOf words ends).options = options := by rw [contextOf, hsort]
    refine prints_grep harguments hready.takes (prints_inputs "grep" hinput hready.takes) ?_
    simp only [Context.flag, hoptions, List.any_cons, List.any_nil, Bool.or_false]
  · cases hf

/-- Filters one after another print the lines that all of them choose, in the order of the text, and
succeed if there are any. -/
theorem pipes_of_filters {commands : List String} {fs : List LineFilter}
    (h : List.Forall₂ s.Filters commands fs) (hne : commands ≠ []) (text : String) :
    s.Pipes commands text (String.ofList (Text.unlines (LineFilter.chosen fs text)))
      (LineFilter.codeOf fs text) := by
  induction h generalizing text with
  | nil => exact absurd rfl hne
  | @cons command f commands fs hf hrest ih =>
    have hturns := hf.turns text
    cases hrest with
    | nil =>
      rw [LineFilter.printed, ← LineFilter.chosen_singleton] at hturns
      exact .last hturns
    | cons hsecond hlater =>
      rw [← LineFilter.chosen_printed f, LineFilter.codeOf, ← LineFilter.chosen_printed f]
      rw [LineFilter.codeOf, LineFilter.chosen_singleton] at hturns
      by_cases hempty : f.select text = []
      · -- nothing is chosen, and the line ends here with what no line at all comes to
        have hnone : f.printed text = "" := by
          rw [LineFilter.printed, hempty]
          rfl
        have hchosen : ∀ fs, LineFilter.chosen fs "" = [] := fun _ => rfl
        rw [if_pos hempty] at hturns
        rw [hnone, hchosen, if_pos rfl]
        exact .halt hturns (by decide)
      · rw [if_neg hempty] at hturns
        exact .next hturns (ih (List.cons_ne_nil _ _) (f.printed text))

/-- What filters do with a text in a pipeline: two of them in either order, one behind itself, and
one beside the one that is turned around. -/
structure FilterLaws (s : Session) (first second turned : String) (f g : LineFilter)
    (text : String) : Prop where
  /-- In either order the lines are printed that both choose. -/
  commute : ∀ commands ∈ [[first, second], [second, first]],
    s.Gives commands text (String.ofList (Text.unlines (LineFilter.chosen [f, g] text)))
      (LineFilter.codeOf [f, g] text)
  /-- One filter, or the same one twice. -/
  idempotent : ∀ commands ∈ [[first], [first, first]],
    s.Gives commands text (f.printed text) (LineFilter.codeOf [f] text)
  /-- The filter that is turned around prints the lines at all the other positions. -/
  complementary : s.Gives [turned] text (f.inverted.printed text)
      (LineFilter.codeOf [f.inverted] text) ∧
    f.select text = (f.positions text).filterMap ((Text.lines text.toList)[·]?) ∧
    f.inverted.select text = (f.inverted.positions text).filterMap ((Text.lines text.toList)[·]?) ∧
    ∀ i < (Text.lines text.toList).length, i ∈ f.inverted.positions text ↔ i ∉ f.positions text
  /-- A line in which other stages make the text, and two filters are behind them, in either
  order. -/
  lines : ∀ line front, s.Pipes front "" text success →
    Line.stages (Text.trimmed line) ∈ [front ++ [first, second], front ++ [second, first]] →
    (s.run line).1 =
      ⟨.ok (LineFilter.codeOf [f, g] text),
        String.ofList (Text.unlines (LineFilter.chosen [f, g] text)), ""⟩

/-- Whatever text filters are fed: their order makes no difference, nor does one behind itself, and
one that is turned around chooses just the other lines. -/
theorem filterLaws {first second turned : String} {f g : LineFilter}
    (hfirst : s.Filters first f) (hsecond : s.Filters second g)
    (hturned : s.Filters turned f.inverted) (text : String) :
    s.FilterLaws first second turned f g text := by
  have hboth : ∀ commands ∈ [[first, second], [second, first]],
      s.Pipes commands text (String.ofList (Text.unlines (LineFilter.chosen [f, g] text)))
        (LineFilter.codeOf [f, g] text) := by
    intro commands hc
    have hpipes := pipes_of_filters (.cons hfirst (.cons hsecond .nil)) (List.cons_ne_nil _ _) text
    have hswapped := pipes_of_filters (.cons hsecond (.cons hfirst .nil)) (List.cons_ne_nil _ _)
      text
    rw [LineFilter.codeOf, LineFilter.chosen_perm (.swap f g [])] at hswapped
    rcases List.mem_pair.mp hc with rfl | rfl
    · exact hpipes
    · exact hswapped
  refine ⟨fun commands hc => gives_of_pipes (hboth commands hc), fun commands hc => ?_,
    ⟨?_, f.select_eq_filterMap text, f.inverted.select_eq_filterMap text,
      fun i hi => f.mem_positions_inverted hi⟩, fun line front hfront hline => ?_⟩
  · have honce := pipes_of_filters (.cons hfirst .nil) (List.cons_ne_nil _ _) text
    have htwice := pipes_of_filters (.cons hfirst (.cons hfirst .nil)) (List.cons_ne_nil _ _) text
    have hsame : LineFilter.chosen [f, f] text = LineFilter.chosen [f] text := by
      simp only [LineFilter.chosen, List.all_cons, List.all_nil, Bool.and_true, Bool.and_self]
    rw [LineFilter.codeOf, hsame] at htwice
    rw [LineFilter.printed, ← LineFilter.chosen_singleton]
    rcases List.mem_pair.mp hc with rfl | rfl
    · exact gives_of_pipes honce
    · exact gives_of_pipes htwice
  · exact gives_of_pipes (.last (hturned.turns text))
  · rcases List.mem_pair.mp hline with he | he
    · exact run_of_gives he (gives_of_pipes (hfront.append (hboth _ (by simp))))
    · exact run_of_gives he (gives_of_pipes (hfront.append (hboth _ (by simp))))

/-- Lines that hold a letter, great or small, and do not hold another, of a text with other breaks
than line feeds. -/
theorem filterLaws_of_letters :
    (withFiles []).FilterLaws "grep -i a" "grep -v b" "grep -iv a" ⟨"a", true, false⟩
        ⟨"b", false, true⟩ "A\rab\x0bxa" ∧
      LineFilter.chosen [⟨"a", true, false⟩, ⟨"b", false, true⟩] "A\rab\x0bxa" =
        [['A'], ['x', 'a']] := by
  have hload : ((withFiles []).registry.load (withFiles []).volume.tree "grep"
      (withFiles []).bin) = .ok ⟨"grep", "Print lines that contain a pattern", .grep⟩ := by
    decide +kernel
  have hstage : ∀ command words, Parts.ofStage command = .ok ⟨"grep" :: words, []⟩ →
      (withFiles []).expandAlias command = command → ∀ f, LineFilter.ofWords words = some f →
      (withFiles []).Filters command f := fun command words hparts hplain f hf =>
    ⟨_, _, _, hplain.symm ▸ hparts, hload, rfl, hf⟩
  refine ⟨filterLaws (hstage _ ["-i", "a"] (by decide +kernel) (by decide +kernel) _ (by decide))
    (hstage _ ["-v", "b"] (by decide +kernel) (by decide +kernel) _ (by decide))
    (hstage _ ["-iv", "a"] (by decide +kernel) (by decide +kernel) _ (by decide)) _, by decide⟩

end Session

end TreeShell
