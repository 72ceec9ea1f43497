import TreeShell.Line.Quote
import TreeShell.Text.Numeral

/-!
# Tokens

A stage is scanned into words and redirection operators. Blanks end a word; quotes do not, and are
left out of it. A word of digits alone, right before an operator and without quotes, is the
descriptor that the operator is for.
-/

namespace TreeShell

/-- The redirection operators. -/
inductive Operator where
  /-- Write to the end of a file. -/
  | append
  /-- Read and write; known, but not supported. -/
  | readWrite
  /-- Write in place of what a file holds. -/
  | write
  /-- Read a file. -/
  | read
  deriving DecidableEq, Repr

namespace Operator

/-- An operator as it is written. -/
def text : Operator → String
  | .append => ">>"
  | .readWrite => "<>"
  | .write => ">"
  | .read => "<"

/-- The descriptor that an operator is for when it names none. -/
def defaultDescriptor : Operator → Nat
  | .append | .write => 1
  | .readWrite | .read => 0

end Operator

/-- A part of a stage. -/
inductive Token where
  /-- A word, and whether any of it was quoted. -/
  | word (text : String) (quoted : Bool)
  /-- An operator, and the descriptor written right before it. -/
  | operator (operator : Operator) (descriptor : Option Nat)
  deriving DecidableEq, Repr

/-- Why a stage cannot be read. -/
inductive LineError where
  /-- A quote is never closed. -/
  | unterminated (quote : Char)
  /-- An operator has no word after it, but this. -/
  | unexpected (shown : String)
  /-- A descriptor to copy is no number. -/
  | ambiguous (word : String)
  /-- Digits that stand for no number, or for one that is too long. -/
  | numeral (error : Text.NumeralError)
  deriving DecidableEq, Repr

namespace LineError

/-- What is said about a stage that cannot be read. -/
def message : LineError → String
  | .unterminated quote => "unterminated quote: " ++ quote.toString
  | .unexpected shown => "syntax error near unexpected token `" ++ shown ++ "'"
  | .ambiguous word => word ++ ": ambiguous redirect"
  | .numeral error => error.message

end LineError

namespace Token

/-- A word that is being read: what of it has been read, and whether any of it was quoted. -/
structure Open where
  text : List Char
  quoted : Bool
  deriving DecidableEq, Repr

/-- The open word with a character more. -/
def Open.push (w : Option Open) (c : Char) : Option Open :=
  match w with
  | some w => some { w with text := w.text ++ [c] }
  | none => some ⟨[c], false⟩

/-- The open word with a quoted part in it. -/
def Open.quote (w : Option Open) : Option Open :=
  match w with
  | some w => some { w with quoted := true }
  | none => some ⟨[], true⟩

/-- The open word as a token, if there is one. -/
def flush : Option Open → List Token
  | some w => [.word (String.ofList w.text) w.quoted]
  | none => []

/-- The open word and an operator after it as tokens; the word may be the operator's descriptor. -/
def close (w : Option Open) (op : Operator) : Except LineError (List Token) :=
  match w with
  | some w =>
    if !w.quoted && Text.isDigits w.text then
      match Text.readInt (String.ofList w.text) with
      | .ok n => .ok [.operator op (some n.toNat)]
      | .error e => .error (.numeral e)
    else .ok (flush (some w) ++ [.operator op none])
  | none => .ok [.operator op none]

/-- Put tokens before those that are found later. -/
def before (found : Except LineError (List Token)) (later : Except LineError (List Token)) :
    Except LineError (List Token) :=
  match found with
  | .ok ts => later.map (ts ++ ·)
  | .error e => .error e

/-- The tokens of a text, with the quote and the word that are open before it. -/
def scan : (open? : Option Char) → (w : Option Open) → List Char → Except LineError (List Token)
  | some q, _, [] => .error (.unterminated q)
  | none, w, [] => .ok (flush w)
  | some q, w, c :: cs => if c = q then scan none w cs else scan (some q) (Open.push w c) cs
  | none, w, '>' :: '>' :: cs => before (close w .append) (scan none none cs)
  | none, w, '<' :: '>' :: cs => before (close w .readWrite) (scan none none cs)
  | none, w, c :: cs =>
    if Line.isQuote c then scan (some c) (Open.quote w) cs
    else if Text.isBlank c then before (.ok (flush w)) (scan none none cs)
    else if c = '>' then before (close w .write) (scan none none cs)
    else if c = '<' then before (close w .read) (scan none none cs)
    else scan none (Open.push w c) cs

/-- The tokens of a stage. -/
def ofStage (stage : String) : Except LineError (List Token) := scan none none stage.toList

end Token

end TreeShell
