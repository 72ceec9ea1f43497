import TreeShell.Line.Option
import TreeShell.Proofs.OrderedMap
import TreeShell.Proofs.Path

/-!
# Options among arguments

Up to two dashes, words are sorted one by one: an argument is put behind the arguments before it,
and an option sets what it sets, whatever else stands around it. So words that are put together are
sorted as their parts are, and what an option is given is told by the last word that sets it. Behind
two dashes all words are arguments.
-/

namespace TreeShell.Options

/-- Whether a word is an argument wherever it stands: one dash alone, or no dash in front. -/
def IsArgument (word : String) : Prop := word = "-" ∨ Text.hasStart word "-" = false

instance : DecidablePred IsArgument := fun word =>
  inferInstanceAs (Decidable (word = "-" ∨ Text.hasStart word "-" = false))

/-- What a long option sets, from what follows its dashes. -/
def longSetting (body : List Char) : String × OptionValue :=
  match Text.cutFirst '=' body with
  | (name, none) => (String.ofList name, .flag)
  | (name, some value) => (String.ofList name, .text (String.ofList value))

/-- The options that a word sets, in order, with what they are given. -/
def settings (word : String) : List (String × OptionValue) :=
  match word.toList with
  | '-' :: '-' :: body => [longSetting body]
  | '-' :: letters => letters.map fun c => (c.toString, .flag)
  | _ => []

/-- What the last of some words that sets an option gives it. -/
def lastSetting (key : String) (words : List String) : Option OptionValue :=
  OrderedMap.find? key (words.flatMap settings).reverse

variable {word : String} {words a b : List String}

/-! ## One word -/

/-- An argument is one dash or begins with none. -/
theorem isArgument_iff : IsArgument word ↔ word.toList = ['-'] ∨ ∀ cs, word.toList ≠ '-' :: cs := by
  have hdash : word = "-" ↔ word.toList = ['-'] := by
    rw [← String.toList_inj]
    rfl
  rw [IsArgument, hdash, ← Bool.not_eq_true, Text.hasStart_iff, not_exists]
  rfl

/-- A group of letters makes one setting for each of them. -/
theorem setLetters_eq (options : Options) (letters : List Char) :
    options.setLetters letters =
      OrderedMap.setAll options (letters.map fun c => (c.toString, OptionValue.flag)) := by
  rw [setLetters, OrderedMap.setAll, List.foldl_map]

/-- A long option makes one setting. -/
theorem setLong_eq (options : Options) (body : List Char) :
    options.setLong body = OrderedMap.setAll options [longSetting body] := by
  have hone : ∀ e : String × OptionValue,
      OrderedMap.setAll options [e] = OrderedMap.set options e.1 e.2 := fun _ => rfl
  rw [setLong, longSetting, hone]
  generalize Text.cutFirst '=' body = cut
  obtain ⟨name, value⟩ := cut
  cases value with
  | none => rfl
  | some value => rfl

/-- An argument sets no option. -/
theorem settings_of_isArgument (h : IsArgument word) : settings word = [] := by
  rw [settings]
  rcases isArgument_iff.mp h with hdash | hstart
  · rw [hdash]
    rfl
  · split
    · next body heq => exact absurd heq (hstart _)
    · next letters _ heq => exact absurd heq (hstart _)
    · rfl

/-- A word with two dashes in front is a long option. -/
theorem settings_of_long {body : List Char} (h : word.toList = '-' :: '-' :: body) :
    settings word = [longSetting body] := by
  rw [settings, h]
  rfl

/-- A word with one dash in front is a group of letters. -/
theorem settings_of_letters {letter : Char} {letters : List Char}
    (h : word.toList = '-' :: letter :: letters) (hletter : letter ≠ '-') :
    settings word = (letter :: letters).map fun c => (c.toString, OptionValue.flag) := by
  rw [settings, h]
  split
  · next heq =>
    cases heq
    exact absurd rfl hletter
  · next heq =>
    cases heq
    rfl
  · next hnone => exact absurd rfl (hnone _)

/-- A word before two dashes goes to the arguments or sets its options, and the others are sorted as
they would be without it. -/
theorem sortFrom_cons (options : Options) (h : word ≠ "--") (rest : List String) :
    sortFrom options (word :: rest) =
      ([word].filter IsArgument ++
          (sortFrom (OrderedMap.setAll options (settings word)) rest).1,
        (sortFrom (OrderedMap.setAll options (settings word)) rest).2) := by
  have hdashes : word.toList ≠ ['-', '-'] := fun he => h (String.toList_inj.mp he)
  rw [List.filter_singleton, sortFrom]
  by_cases hword : IsArgument word
  · rw [decide_eq_true hword, settings_of_isArgument hword]
    rcases isArgument_iff.mp hword with hdash | hstart
    · rw [hdash]
      rfl
    · split
      · next heq => exact absurd heq hdashes
      · next heq => exact absurd heq (hstart _)
      · next heq => exact absurd heq (hstart _)
      · rfl
  · rw [decide_eq_false hword]
    rw [isArgument_iff, not_or, not_forall] at hword
    obtain ⟨hdash, cs, hcs⟩ := hword
    rw [not_not] at hcs
    obtain ⟨letter, letters, rfl⟩ :=
      List.exists_cons_of_ne_nil fun hnil : cs = [] => hdash (hnil ▸ hcs)
    by_cases hletter : letter = '-'
    · subst hletter
      have hbody : letters ≠ [] := fun hnil => hdashes (hnil ▸ hcs)
      obtain ⟨c, body, rfl⟩ := List.exists_cons_of_ne_nil hbody
      rw [settings_of_long hcs, ← setLong_eq, hcs]
      rfl
    · rw [settings_of_letters hcs hletter, ← setLetters_eq, hcs]
      split
      · next heq =>
        cases heq
        exact absurd rfl hletter
      · next heq =>
        cases heq
        exact absurd rfl hletter
      · next heq =>
        cases heq
        rfl
      · next hnone => exact absurd rfl (hnone _ _)

/-! ## All words -/

/-- Words before two dashes are sorted one after another, and the others as if these had been sorted
before. -/
theorem sortFrom_append (options : Options) (h : "--" ∉ a) (rest : List String) :
    sortFrom options (a ++ rest) =
      (a.filter IsArgument ++
          (sortFrom (OrderedMap.setAll options (a.flatMap settings)) rest).1,
        (sortFrom (OrderedMap.setAll options (a.flatMap settings)) rest).2) := by
  induction a generalizing options with
  | nil => rfl
  | cons word a ih =>
    rw [List.mem_cons, not_or] at h
    rw [List.cons_append, sortFrom_cons options (Ne.symm h.1), ih _ h.2, List.flatMap_cons,
      OrderedMap.setAll_append, ← List.append_assoc, ← List.filter_append, List.singleton_append]

/-- No words leave the options as they are. -/
theorem sortFrom_nil (options : Options) : sortFrom options [] = ([], options) := by
  rw [sortFrom]

/-- What follows the two dashes is left as it is. -/
theorem sortFrom_dashes (options : Options) (rest : List String) :
    sortFrom options ("--" :: rest) = (rest, options) := by
  rw [sortFrom]
  rfl

/-- Words are those before the first two dashes, or these and what is behind. -/
theorem cases_dashes (words : List String) :
    "--" ∉ words ∨ ∃ before behind, "--" ∉ before ∧ words = before ++ "--" :: behind := by
  by_cases h : "--" ∈ words
  · obtain ⟨before, behind, hwords, hbefore⟩ := List.eq_append_cons_of_mem h
    exact Or.inr ⟨before, behind, hbefore, hwords⟩
  · exact Or.inl h

/-- Words without two dashes are sorted into the arguments among them and what they set. -/
theorem sort_of_not_mem (h : "--" ∉ words) :
    sort words = (words.filter IsArgument, OrderedMap.ofList (words.flatMap settings)) := by
  have hsort := sortFrom_append ∅ h []
  rw [List.append_nil, sortFrom_nil, List.append_nil] at hsort
  exact hsort

/-- Words before the two dashes are sorted, and those behind are arguments. -/
theorem sort_dashes (h : "--" ∉ a) (behind : List String) :
    sort (a ++ "--" :: behind) =
      (a.filter IsArgument ++ behind, OrderedMap.ofList (a.flatMap settings)) := by
  rw [sort, sortFrom_append ∅ h, sortFrom_dashes]
  rfl

/-- The options that are known before do not change how words are sorted: they are overridden by
those that the words set. -/
theorem sortFrom_eq (options : Options) (words : List String) :
    sortFrom options words =
      ((sort words).1, OrderedMap.setAll options (sort words).2.entries) := by
  rcases cases_dashes words with h | ⟨before, behind, h, rfl⟩
  · have hsort := sortFrom_append options h []
    rw [List.append_nil, sortFrom_nil, List.append_nil] at hsort
    rw [hsort, sort_of_not_mem h, OrderedMap.setAll_ofList]
  · rw [sortFrom_append options h, sortFrom_dashes, sort_dashes h, OrderedMap.setAll_ofList]

/-- Words that are put together are sorted as their parts are, if the first part does not end the
options. -/
theorem sort_append (h : "--" ∉ a) (b : List String) :
    sort (a ++ b) =
      ((sort a).1 ++ (sort b).1, OrderedMap.setAll (sort a).2 (sort b).2.entries) := by
  rw [sort, sortFrom_append ∅ h b, sortFrom_eq, sort_of_not_mem h]
  rfl

/-- An option has the last setting that the words make for it. -/
theorem get?_sort (h : "--" ∉ words) (key : String) :
    (sort words).2.get? key = lastSetting key words := by
  rw [sort_of_not_mem h, OrderedMap.ofList, OrderedMap.get?_setAll, OrderedMap.get?_empty,
    Option.or_none, lastSetting]

/-- Options that stand in the same order set the same, wherever the arguments stand. -/
theorem flatMap_settings_filter (words : List String) :
    (words.filter fun word => ¬ IsArgument word).flatMap settings = words.flatMap settings := by
  induction words with
  | nil => rfl
  | cons word words ih =>
    rw [List.flatMap_cons]
    by_cases hword : IsArgument word
    · rw [List.filter_cons_of_neg (by simpa using hword), ih, settings_of_isArgument hword,
        List.nil_append]
    · rw [List.filter_cons_of_pos (by simpa using hword), List.flatMap_cons, ih]

/-- Words that have the same arguments in the same order as others, and the same options in the same
order, are sorted as these are, whatever follows. -/
theorem sort_append_of_filter (ha : "--" ∉ a) (hb : "--" ∉ b)
    (harguments : a.filter IsArgument = b.filter IsArgument)
    (hoptions : (a.filter fun word => ¬ IsArgument word) = b.filter fun word => ¬ IsArgument word)
    (rest : List String) : sort (a ++ rest) = sort (b ++ rest) := by
  have hsettings : a.flatMap settings = b.flatMap settings := by
    rw [← flatMap_settings_filter a, hoptions, flatMap_settings_filter]
  rw [sort_append ha, sort_append hb, sort_of_not_mem ha, sort_of_not_mem hb, harguments, hsettings]

/-- Up to two dashes words are sorted part by part: the arguments are those of the parts one after
another, and the options of the second part override those of the first. Behind two dashes all words
are arguments, and no option is set. An argument is kept, once and in its place, and an option is
given what the last word gives it that sets it. So options can be moved past arguments, and past
options with other names, and nothing changes, whatever follows. -/
theorem sorts_part_by_part (a b : List String) :
    ("--" ∉ a → sort (a ++ b) =
        ((sort a).1 ++ (sort b).1, OrderedMap.setAll (sort a).2 (sort b).2.entries)) ∧
      ("--" ∉ a → sort (a ++ ["--"] ++ b) = ((sort a).1 ++ b, (sort a).2)) ∧
      ("--" ∈ a → sort (a ++ b) = ((sort a).1 ++ b, (sort a).2)) ∧
      ("--" ∉ a → (sort a).1 = a.filter IsArgument ∧
        ∀ key, (sort a).2.get? key = lastSetting key a) ∧
      ∀ a', "--" ∉ a → "--" ∉ a' → a'.filter IsArgument = a.filter IsArgument →
        ((a'.filter fun word => ¬ IsArgument word) = (a.filter fun word => ¬ IsArgument word) →
          sort (a' ++ b) = sort (a ++ b)) ∧
        ((∀ key, lastSetting key a' = lastSetting key a) →
          (sort (a' ++ b)).1 = (sort (a ++ b)).1 ∧
            ∀ key, (sort (a' ++ b)).2.get? key = (sort (a ++ b)).2.get? key) := by
  refine ⟨fun h => sort_append h b, fun h => ?_, fun h => ?_, fun h => ⟨?_, get?_sort h⟩,
    fun a' ha ha' harguments => ⟨fun hoptions => ?_, fun hlast => ⟨?_, fun key => ?_⟩⟩⟩
  · rw [List.append_assoc, List.singleton_append, sort_dashes h, sort_of_not_mem h]
  · obtain ⟨before, behind, rfl, hbefore⟩ := List.eq_append_cons_of_mem h
    rw [List.append_assoc, List.cons_append, sort_dashes hbefore, sort_dashes hbefore,
      List.append_assoc]
  · rw [sort_of_not_mem h]
  · exact sort_append_of_filter ha' ha harguments hoptions b
  · rw [sort_append ha', sort_append ha, sort_of_not_mem ha', sort_of_not_mem ha, harguments]
  · rw [sort_append ha', sort_append ha, OrderedMap.get?_setAll, OrderedMap.get?_setAll,
      get?_sort ha', get?_sort ha, hlast]

/-- Letters, a value with an equals sign in it and one dash alone, sorted in one go and in two
parts, with two dashes between these and with an option moved to the end of the first part. -/
theorem sorts_mixed_words :
    let a := ["-la", "x", "--k=a=b"]
    let b := ["-", "--k=c", "-l"]
    sort (a ++ b) = ((sort a).1 ++ (sort b).1, OrderedMap.setAll (sort a).2 (sort b).2.entries) ∧
      sort (a ++ ["--"] ++ b) = ((sort a).1 ++ b, (sort a).2) ∧
      sort (a ++ ["--"] ++ b) = (["x"] ++ b,
        OrderedMap.ofList [("l", .flag), ("a", .flag), ("k", .text "a=b")]) ∧
      sort ((a ++ ["--"]) ++ ["--"]) = ((sort (a ++ ["--"])).1 ++ ["--"], (sort (a ++ ["--"])).2) ∧
      sort (["x", "-la", "--k=a=b"] ++ b) = sort (a ++ b) ∧
      ∀ key, (sort (["x", "--k=a=b", "-la"] ++ b)).2.get? key = (sort (a ++ b)).2.get? key := by
  intro a b
  have ha : "--" ∉ a := by decide
  obtain ⟨hparts, hdashes, -, -, -⟩ := sorts_part_by_part a b
  obtain ⟨-, -, hbehind, -, -⟩ := sorts_part_by_part (a ++ ["--"]) ["--"]
  obtain ⟨-, -, -, -, hmove⟩ := sorts_part_by_part a b
  refine ⟨hparts ha, hdashes ha, by decide +kernel, hbehind (by decide), ?_, ?_⟩
  · exact (hmove ["x", "-la", "--k=a=b"] ha (by decide) (by decide +kernel)).1 (by decide +kernel)
  · refine ((hmove ["x", "--k=a=b", "-la"] ha (by decide) (by decide +kernel)).2 fun key => ?_).2
    have hfirst : a.flatMap settings =
        [("l", .flag), ("a", .flag), ("k", .text "a=b")] := by decide +kernel
    have hmoved : ["x", "--k=a=b", "-la"].flatMap settings =
        [("k", .text "a=b"), ("l", .flag), ("a", .flag)] := by decide +kernel
    rw [lastSetting, lastSetting, hfirst, hmoved]
    by_cases hk : "k" = key
    · subst hk
      rfl
    · simp [OrderedMap.find?, hk]

end TreeShell.Options
