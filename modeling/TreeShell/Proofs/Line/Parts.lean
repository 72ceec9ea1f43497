import TreeShell.Proofs.Line.Spelling

/-!
# The parts of a stage

The tokens of a stage are sorted by what stands right before them: a word behind an operator is the
target of a redirection, every other word is one of the command. So it is refused just if something
else than a target stands behind an operator. Redirections that are written one after another are
read back.
-/

namespace TreeShell

open Line

namespace Token

variable {t : Token} {ts rest : List Token} {op : Operator} {d : Option Nat} {text : String}
  {quoted : Bool}

/-- The text of a word, unless it stands right behind an operator. -/
def freeWord? : Option Token × Token → Option String
  | (some (.operator _ _), _) => none
  | (_, .word text _) => some text
  | (_, .operator _ _) => none

/-- The words of some tokens that stand right behind no operator, in order; `previous` is what
stands before the tokens. -/
def freeWordsAfter (previous : Option Token) (ts : List Token) : List String :=
  ((previous :: ts.map some).zip ts).filterMap freeWord?

/-- The words that stand right behind no operator, in order. -/
def freeWords (ts : List Token) : List String := freeWordsAfter none ts

/-- An operator with a word right behind it. -/
structure Pair where
  operator : Operator
  descriptor : Option Nat
  text : String
  quoted : Bool

/-- Two tokens as an operator and a word, if they are. -/
def pair? : Token × Token → Option Pair
  | (.operator op descriptor, .word text quoted) => some ⟨op, descriptor, text, quoted⟩
  | _ => none

/-- The operators with a word right behind them, in order. -/
def pairs (ts : List Token) : List Pair := (ts.zip ts.tail).filterMap pair?

/-- A word can be a target: behind an ampersand, unless it was quoted, there are decimal digits, and
nothing else. -/
def CanFollow (text : String) (quoted : Bool) : Prop :=
  quoted = false → ∀ number, text.toList = '&' :: number →
    number ≠ [] ∧ ∀ c ∈ number, Text.isDecimal c = true

/-- A word that can be a target stands right behind every operator. -/
def Targeted (ts : List Token) : Prop :=
  ∀ before op d after, ts = before ++ .operator op d :: after →
    ∃ text quoted rest, after = .word text quoted :: rest ∧ CanFollow text quoted

/-- What stands behind an ampersand in words without quotes is short, and all digits in it are
decimal. -/
def CountableTargets (ts : List Token) : Prop :=
  ∀ text, .word text false ∈ ts → ∀ number, text.toList = '&' :: number → Text.Countable number

/-! ## Words and pairs, one after another -/

/-- A word behind a word is free. -/
theorem freeWordsAfter_word (text : String) (quoted : Bool) (ts : List Token) :
    freeWordsAfter (some (.word text quoted)) ts = freeWords ts := by
  cases ts with
  | nil => rfl
  | cons t ts => cases t <;> rfl

/-- A word that follows no operator is free. -/
theorem freeWords_word : freeWords (.word text quoted :: ts) = text :: freeWords ts := by
  rw [← freeWordsAfter_word text quoted ts]
  rfl

/-- The word behind an operator is not. -/
theorem freeWords_pair :
    freeWords (.operator op d :: .word text quoted :: ts) = freeWords ts := by
  rw [← freeWordsAfter_word text quoted ts]
  rfl

/-- A word makes no pair. -/
theorem pairs_word (text : String) (quoted : Bool) (ts : List Token) :
    pairs (.word text quoted :: ts) = pairs ts := by
  cases ts with
  | nil => rfl
  | cons t ts => rfl

/-- An operator and the word behind it make one. -/
theorem pairs_pair :
    pairs (.operator op d :: .word text quoted :: ts) = ⟨op, d, text, quoted⟩ :: pairs ts := by
  rw [← pairs_word text quoted ts]
  rfl

theorem targeted_nil : Targeted [] := by
  intro before op d after h
  exact absurd h.symm (List.append_ne_nil_of_right_ne_nil before (List.cons_ne_nil _ _))

/-- A word takes no target from what follows. -/
theorem targeted_word_iff : Targeted (.word text quoted :: ts) ↔ Targeted ts := by
  constructor
  · intro h before op d after hts
    exact h (.word text quoted :: before) op d after (by rw [hts, List.cons_append])
  · intro h before op d after hts
    cases before with
    | nil => cases hts
    | cons t before => exact h before op d after (List.cons.inj hts).2

/-- An operator needs a word behind it that can be a target. -/
theorem targeted_operator_iff : Targeted (.operator op d :: ts) ↔
    (∃ text quoted rest, ts = .word text quoted :: rest ∧ CanFollow text quoted) ∧ Targeted ts := by
  constructor
  · intro h
    refine ⟨h [] op d ts rfl, fun before op' d' after hts => ?_⟩
    exact h (.operator op d :: before) op' d' after (by rw [hts, List.cons_append])
  · rintro ⟨hfirst, hrest⟩ before op' d' after hts
    cases before with
    | nil =>
      cases hts
      exact hfirst
    | cons t before => exact hrest before op' d' after (List.cons.inj hts).2

/-- With its target an operator is one redirection. -/
theorem targeted_pair_iff : Targeted (.operator op d :: .word text quoted :: ts) ↔
    CanFollow text quoted ∧ Targeted ts := by
  rw [targeted_operator_iff, targeted_word_iff]
  refine and_congr_left fun _ => ⟨?_, fun h => ⟨text, quoted, ts, rfl, h⟩⟩
  rintro ⟨text', quoted', rest, hrest, hfollow⟩
  cases hrest
  exact hfollow

end Token

namespace Redirection

open Token

variable {text : String} {quoted : Bool} {ts : List Token}

/-- What a word that can be a target stands for: a file, or the descriptor with a number. -/
inductive Leads (text : String) : Bool → Target → Prop where
  /-- Quoted, or without an ampersand in front, it is the path of a file. -/
  | file {quoted : Bool} (h : quoted = true ∨ ∀ number, text.toList ≠ '&' :: number) :
      Leads text quoted (.file text)
  /-- Behind an ampersand there is the number of a descriptor. -/
  | descriptor {number : List Char} (h : text.toList = '&' :: number) (hne : number ≠ [])
      (hdecimal : ∀ c ∈ number, Text.isDecimal c = true) :
      Leads text false (.descriptor (Text.decimalValue number))

/-- A redirection is what an operator and a word make up: its descriptor is the one that is written
with the operator, or else the input for an operator that begins with `<` and the output for one
that does not. -/
structure IsMadeOf (r : Redirection) (p : Pair) : Prop where
  operator : r.operator = p.operator
  descriptor : r.descriptor =
    p.descriptor.getD (if p.operator.text.toList.head? = some '<' then 0 else 1)
  target : Leads p.text p.quoted r.target

/-- The operators that begin with a smaller sign are for the input. -/
theorem defaultDescriptor_eq (op : Operator) :
    op.defaultDescriptor = if op.text.toList.head? = some '<' then 0 else 1 := by
  cases op <;> rfl

/-- A quoted word, or one without an ampersand in front, names a file. -/
theorem targetOf_file (h : quoted = true ∨ ∀ number, text.toList ≠ '&' :: number) :
    targetOf text quoted = .ok (.file text) := by
  unfold targetOf
  split
  · next number hword =>
    rcases h with hquoted | hno
    · cases hquoted
    · exact absurd hword (hno number)
  · rfl

/-- A numeral behind an ampersand names a descriptor. -/
theorem targetOf_descriptor {number : List Char} (hword : text.toList = '&' :: number)
    (h : Text.IsNumeral number) :
    targetOf text false = .ok (.descriptor (Text.decimalValue number)) := by
  unfold targetOf
  rw [hword]
  simp only [h.isDigits, if_true, h.readInt]
  rfl

/-- Anything else behind an ampersand is refused. -/
theorem targetOf_ambiguous {number : List Char} (hword : text.toList = '&' :: number)
    (h : ¬ Text.isDigits number = true) : targetOf text false = .error (.ambiguous text) := by
  unfold targetOf
  rw [hword]
  exact if_neg h

/-- A word is taken for a target just if it can be one, and refused as an ambiguous one else. -/
theorem targetOf_cases
    (h : quoted = false → ∀ number, text.toList = '&' :: number → Text.Countable number) :
    (∃ target, targetOf text quoted = .ok target ∧ CanFollow text quoted ∧
        Leads text quoted target) ∨
      (targetOf text quoted = .error (.ambiguous text) ∧ ¬ CanFollow text quoted) := by
  by_cases hfile : quoted = true ∨ ∀ number, text.toList ≠ '&' :: number
  · refine Or.inl ⟨_, targetOf_file hfile, fun hq number hword => ?_, .file hfile⟩
    rcases hfile with hquoted | hno
    · rw [hq] at hquoted
      cases hquoted
    · exact absurd hword (hno number)
  · push Not at hfile
    obtain ⟨hquoted, number, hword⟩ := hfile
    obtain rfl : quoted = false := eq_false_of_ne_true hquoted
    by_cases hdigits : Text.isDigits number = true
    · have hnumeral := (h rfl number hword).isNumeral hdigits
      refine Or.inl ⟨_, targetOf_descriptor hword hnumeral, fun _ number' hword' => ?_,
        .descriptor hword hnumeral.ne_nil hnumeral.decimal⟩
      rw [hword] at hword'
      cases hword'
      exact ⟨hnumeral.ne_nil, hnumeral.decimal⟩
    · refine Or.inr ⟨targetOf_ambiguous hword hdigits, fun hfollow => hdigits ?_⟩
      obtain ⟨hne, hdecimal⟩ := hfollow rfl number hword
      exact Text.IsNumeral.isDigits ⟨hne, hdecimal, (h rfl number hword).short⟩

end Redirection

namespace Parts

open Token Redirection

variable {ts : List Token}

/-- What tokens are sorted into: their words and redirections, if all operators have targets; if one
has not, they are refused, and not for digits. -/
inductive Sorts (ts : List Token) : Except LineError Parts → Prop where
  | ok {p : Parts} (h : Targeted ts) (hwords : p.words = freeWords ts)
      (hredirections : List.Forall₂ IsMadeOf p.redirections (pairs ts)) : Sorts ts (.ok p)
  | error {e : LineError} (h : ¬ Targeted ts) (he : ∀ n, e ≠ .numeral n) : Sorts ts (.error e)

/-- Tokens whose targets can be read are sorted into words and redirections, or refused. -/
theorem sorts_ofTokens (h : CountableTargets ts) : Sorts ts (ofTokens ts) := by
  have hrefused : ∀ {ts : List Token} {op : Operator} {d : Option Nat},
      (∀ text quoted rest, ts ≠ .word text quoted :: rest) →
        ¬ Targeted (.operator op d :: ts) := by
    intro ts op d hts htargeted
    obtain ⟨⟨text, quoted, rest, he, -⟩, -⟩ := targeted_operator_iff.mp htargeted
    exact hts text quoted rest he
  fun_induction ofTokens ts with
  | case1 => exact .ok targeted_nil rfl .nil
  | case2 text quoted rest ih =>
    have hrest := ih fun text' hw => h text' (List.mem_cons_of_mem _ hw)
    generalize ofTokens rest = found at hrest
    cases hrest with
    | ok hp hwords hredirections =>
      refine .ok (targeted_word_iff.mpr hp) ?_ ?_
      · rw [freeWords_word, ← hwords]
      · rw [pairs_word]
        exact hredirections
    | error hp he => exact .error (mt targeted_word_iff.mp hp) he
  | case3 op d text quoted rest e he =>
    have hcountable : quoted = false → ∀ number, text.toList = '&' :: number →
        Text.Countable number := by
      rintro rfl
      exact h text (List.mem_cons_of_mem _ List.mem_cons_self)
    rcases targetOf_cases hcountable with ⟨target, htarget, -, -⟩ | ⟨htarget, hno⟩
    · rw [Redirection.ofTokens, htarget] at he
      cases he
    · rw [Redirection.ofTokens, htarget] at he
      cases he
      exact .error (fun hts => hno (targeted_pair_iff.mp hts).1) fun n he => by cases he
  | case4 op d text quoted rest r hr ih =>
    have hcountable : quoted = false → ∀ number, text.toList = '&' :: number →
        Text.Countable number := by
      rintro rfl
      exact h text (List.mem_cons_of_mem _ List.mem_cons_self)
    have hrest := ih fun text' hw =>
      h text' (List.mem_cons_of_mem _ (List.mem_cons_of_mem _ hw))
    rcases targetOf_cases hcountable with ⟨target, htarget, hfollow, hleads⟩ | ⟨htarget, -⟩
    · rw [Redirection.ofTokens, htarget] at hr
      cases hr
      generalize ofTokens rest = found at hrest
      cases hrest with
      | ok hp hwords hredirections =>
        refine .ok (targeted_pair_iff.mpr ⟨hfollow, hp⟩) ?_ ?_
        · rw [freeWords_pair, ← hwords]
        · rw [pairs_pair]
          exact .cons ⟨rfl, by rw [← defaultDescriptor_eq], hleads⟩ hredirections
      | error hp he => exact .error (fun hts => hp (targeted_pair_iff.mp hts).2) he
    · rw [Redirection.ofTokens, htarget] at hr
      cases hr
  | case5 op d op' d' rest =>
    exact .error (hrefused fun text quoted rest' he => by cases he) fun n he => by cases he
  | case6 op d =>
    exact .error (hrefused fun text quoted rest he => by cases he) fun n he => by cases he

end Parts

/-! ## Redirections that are written -/

namespace Redirection

open Token

variable {r : Redirection} {rs : List Redirection}

/-- A target that can be read back: a path that is a word without quotes and without an ampersand in
front, or a number that is not too large. -/
def IsWritableTarget : Target → Prop
  | .file path => path ≠ "" ∧ (∀ c ∈ path.toList, IsBare c) ∧ path.toList.head? ≠ some '&'
  | .descriptor n => n < 10 ^ Text.maxDigits

/-- A redirection that can be read back. -/
structure IsWritable (r : Redirection) : Prop where
  descriptor : r.descriptor < 10 ^ Text.maxDigits
  target : IsWritableTarget r.target

/-- The word that a target is written as. -/
def targetWord : Target → String
  | .file path => path
  | .descriptor n => "&" ++ toString n

/-- The tokens of a redirection that is written with its descriptor. -/
def tokens (r : Redirection) : List Token :=
  [.operator r.operator (some r.descriptor), .word (targetWord r.target) false]

/-- A redirection is written with its descriptor, its operator and its target. -/
theorem text_eq (r : Redirection) :
    r.text = toString r.descriptor ++ (r.operator.text ++ targetWord r.target) := by
  obtain ⟨d, op, target⟩ := r
  cases target with
  | file path => simp [text, renderParts, targetWord, String.append_assoc]
  | descriptor n => simp [text, renderParts, targetWord, String.append_assoc]

/-- A number is written with its digits. -/
theorem toList_number (n : Nat) : (toString n).toList = Nat.toDigits 10 n := by
  rw [Nat.toString_eq_ofList_toDigits, String.toList_ofList]

/-- A descriptor is written with an ampersand in front. -/
theorem toList_targetWord_descriptor (n : Nat) :
    (targetWord (.descriptor n)).toList = '&' :: Nat.toDigits 10 n := by
  rw [targetWord, String.toList_append, toList_number]
  rfl

/-- The word of a target that can be read back needs no quotes. -/
theorem bare_targetWord {target : Target} (h : IsWritableTarget target) :
    (targetWord target).toList ≠ [] ∧ ∀ c ∈ (targetWord target).toList, IsBare c := by
  cases target with
  | file path => exact ⟨mt String.toList_eq_nil_iff.mp h.1, h.2.1⟩
  | descriptor n =>
    have hmark : IsBare '&' := ⟨⟨rfl, by decide, by decide⟩, by decide⟩
    rw [toList_targetWord_descriptor]
    refine ⟨List.cons_ne_nil _ _, List.forall_mem_cons.mpr ⟨hmark, fun c hc => ?_⟩⟩
    exact isBare_of_isDecimal ((Text.isNumeral_toDigits h).decimal c hc)

/-- The word of a target that can be read back leads there. -/
theorem targetOf_targetWord {target : Target} (h : IsWritableTarget target) :
    targetOf (targetWord target) false = .ok target := by
  cases target with
  | file path =>
    refine targetOf_file (Or.inr fun number hword => h.2.2 ?_)
    exact congrArg List.head? hword
  | descriptor n =>
    rw [targetOf_descriptor (toList_targetWord_descriptor n) (Text.isNumeral_toDigits h),
      Text.decimalValue_toDigits]

/-- A redirection that is written is read as its operator, with its descriptor, and its target. -/
theorem scan_text (h : r.IsWritable) : scan none none r.text.toList = .ok r.tokens := by
  obtain ⟨hne, hbare⟩ := bare_targetWord h.target
  have hword : scan none none (targetWord r.target).toList =
      .ok [.word (targetWord r.target) false] := by
    have hspelled := scan_spelled (Spells.bare hne hbare)
    rwa [String.ofList_toList] at hspelled
  have hhead : (targetWord r.target).toList.head? ≠ some '>' := fun hhead =>
    (hbare '>' (List.mem_of_mem_head? hhead)).no_output rfl
  rw [text_eq, String.toList_append, String.toList_append, toList_number,
    scan_numeral (Text.isNumeral_toDigits h.descriptor) r.operator hhead, hword,
    Text.decimalValue_toDigits]
  rfl

/-- Redirections make up themselves again from their tokens. -/
theorem ofTokens_tokens (h : ∀ r ∈ rs, r.IsWritable) :
    Parts.ofTokens (rs.flatMap tokens) = .ok ⟨[], rs⟩ := by
  induction rs with
  | nil => rfl
  | cons r rs ih =>
    obtain ⟨hr, hrest⟩ := List.forall_mem_cons.mp h
    have hfirst : Redirection.ofTokens r.operator (some r.descriptor) (targetWord r.target) false =
        .ok r := by
      rw [Redirection.ofTokens, targetOf_targetWord hr.target]
      rfl
    rw [List.flatMap_cons, tokens, List.cons_append, List.cons_append, List.nil_append,
      Parts.ofTokens, hfirst, ih hrest]
    rfl

/-- Redirections that are written one after another are read back. -/
theorem ofStage_join_text (h : ∀ r ∈ rs, r.IsWritable) :
    Parts.ofStage (Text.join " " (rs.map text)) = .ok ⟨[], rs⟩ := by
  have hline : (Text.join " " (rs.map text)).toList =
      List.intercalate [' '] (rs.map fun r => r.text.toList) := by
    rw [Text.join, String.toList_intercalate, List.map_map]
    rfl
  have hall : List.Forall₂ (fun cs ts => scan none none cs = .ok ts)
      (rs.map fun r => r.text.toList) (rs.map tokens) := by
    rw [List.forall₂_map_left_iff, List.forall₂_map_right_iff, List.forall₂_same]
    exact fun r hr => scan_text (h r hr)
  rw [Parts.ofStage, Token.ofStage, hline, scan_intercalate hall, ← List.flatMap_def]
  exact ofTokens_tokens h

example : Parts.ofStage "2>>log 0<&1 1<>3" =
    .ok ⟨[], [⟨2, .append, .file "log"⟩, ⟨0, .read, .descriptor 1⟩,
      ⟨1, .readWrite, .file "3"⟩]⟩ := by
  decide +kernel

end Redirection

namespace Parts

open Token Redirection

/-- A stage whose tokens are known is accepted just if a target stands behind each of its operators.
Then its command and arguments are the words that stand behind no operator, and its redirections are
made of the operators with the words behind them, all in order; else it is refused, and not for its
digits. Redirections that are written one after another, with a blank between them, are read
back. -/
theorem sorts_by_what_stands_before :
    (∀ stage ts, Token.ofStage stage = .ok ts → CountableTargets ts →
      ((∃ p, ofStage stage = .ok p) ↔ Targeted ts) ∧
        (∀ p, ofStage stage = .ok p → p.name.toList ++ p.arguments = freeWords ts ∧
          List.Forall₂ IsMadeOf p.redirections (pairs ts)) ∧
        (¬ Targeted ts → ∃ e, ofStage stage = .error e ∧ ∀ n, e ≠ .numeral n)) ∧
      ∀ rs : List Redirection, (∀ r ∈ rs, r.IsWritable) →
        ofStage (Text.join " " (rs.map Redirection.text)) = .ok ⟨[], rs⟩ := by
  refine ⟨fun stage ts hts hcountable => ?_, fun rs => ofStage_join_text⟩
  have hsorts := sorts_ofTokens hcountable
  have hstage : ofStage stage = ofTokens ts := by rw [ofStage, hts]
  rw [hstage]
  generalize ofTokens ts = found at hsorts
  cases hsorts with
  | @ok p htargeted hwords hredirections =>
    refine ⟨iff_of_true ⟨p, rfl⟩ htargeted, ?_, fun hno => absurd htargeted hno⟩
    intro p' hp
    cases hp
    refine ⟨?_, hredirections⟩
    rw [← hwords, name, arguments]
    cases p.words <;> rfl
  | @error e hno he =>
    refine ⟨iff_of_false ?_ hno, ?_, fun _ => ⟨e, rfl, he⟩⟩
    · rintro ⟨p, hp⟩
      cases hp
    · intro p hp
      cases hp

end Parts

end TreeShell
