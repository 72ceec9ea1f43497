import TreeShell.Line.Token
import TreeShell.Text.Cut

/-!
# Redirections

The words of a stage are its command with its arguments; an operator and the word after it are a
redirection, of a descriptor to a file or to what another descriptor leads to. Redirections keep the
order in which they are written.
-/

namespace TreeShell

/-- Where a redirection leads. -/
inductive Target where
  /-- To a file. -/
  | file (path : String)
  /-- To where a descriptor leads at that point. -/
  | descriptor (number : Nat)
  deriving DecidableEq, Repr

/-- What kinds of targets there are. -/
inductive TargetKind where
  | file
  | descriptor
  deriving DecidableEq, Repr

/-- The kind of target with a name. -/
def TargetKind.ofName? : String → Option TargetKind
  | "file" => some .file
  | "dup" => some .descriptor
  | _ => none

/-- What is said of a name that no kind of target has. -/
def unknownTargetKind (name : String) : String :=
  Text.quoted name ++ " is not a valid RedirectKind"

/-- A redirection from its written parts. -/
def renderParts (descriptor : String) (kind : TargetKind) (operator target : String) : String :=
  descriptor ++ operator ++ (match kind with | .file => "" | .descriptor => "&") ++ target

/-- A descriptor is led somewhere else. -/
structure Redirection where
  descriptor : Nat
  operator : Operator
  target : Target
  deriving DecidableEq, Repr

namespace Redirection

/-- A redirection as it is written. -/
def text (r : Redirection) : String :=
  match r.target with
  | .file path => renderParts (toString r.descriptor) .file r.operator.text path
  | .descriptor n => renderParts (toString r.descriptor) .descriptor r.operator.text (toString n)

/-- The target that a word names: with an ampersand in front, outside quotes, a descriptor. -/
def targetOf (word : String) (quoted : Bool) : Except LineError Target :=
  match quoted, word.toList with
  | false, '&' :: number =>
    if Text.isDigits number then
      match Text.readInt (String.ofList number) with
      | .ok n => .ok (.descriptor n.toNat)
      | .error e => .error (.numeral e)
    else .error (.ambiguous word)
  | _, _ => .ok (.file word)

/-- The redirection of an operator and the word after it. -/
def ofTokens (op : Operator) (descriptor : Option Nat) (word : String) (quoted : Bool) :
    Except LineError Redirection :=
  (targetOf word quoted).map fun target =>
    ⟨descriptor.getD op.defaultDescriptor, op, target⟩

end Redirection

/-- A stage in its parts. -/
structure Parts where
  words : List String
  redirections : List Redirection
  deriving DecidableEq, Repr

namespace Parts

/-- The command of a stage, if it has one. -/
def name (p : Parts) : Option String := p.words.head?

/-- The arguments of the command. -/
def arguments (p : Parts) : List String := p.words.tail

/-- Tokens sorted into words and redirections. -/
def ofTokens : List Token → Except LineError Parts
  | [] => .ok ⟨[], []⟩
  | .word text _ :: rest => (ofTokens rest).map fun p => { p with words := text :: p.words }
  | .operator op descriptor :: .word text quoted :: rest =>
    match Redirection.ofTokens op descriptor text quoted with
    | .error e => .error e
    | .ok r => (ofTokens rest).map fun p => { p with redirections := r :: p.redirections }
  | .operator _ _ :: .operator op _ :: _ => .error (.unexpected op.text)
  | [.operator _ _] => .error (.unexpected "newline")

/-- The parts of a stage. -/
def ofStage (stage : String) : Except LineError Parts :=
  match Token.ofStage stage with
  | .ok tokens => ofTokens tokens
  | .error e => .error e

end Parts

end TreeShell
