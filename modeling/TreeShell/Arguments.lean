import TreeShell.Text.Cut
import TreeShell.Text.Digit

/-!
# Arguments of the program

The switches that the program is started with. A long switch may be cut short as long as it stays
the only one that begins so; a switch with a value may have it in the same word, with an equals
sign or without. What is no switch and no value of one is refused. Two dashes alone are no value,
not even in the word of a switch.
-/

namespace TreeShell

/-- The switches of the program. -/
inductive Switch where
  | help
  | reset
  | command
  deriving DecidableEq, Repr

namespace Switch

/-- The switches as they are written. -/
def written : List (String × Switch) :=
  [("-h", .help), ("--help", .help), ("--reset", .reset), ("-c", .command)]

/-- The switch that is written as `s`. -/
def ofWritten? (s : String) : Option Switch :=
  (written.find? fun (w, _) => w = s).map Prod.snd

/-- The switch with a letter. -/
def ofLetter? (c : Char) : Option Switch := ofWritten? (String.ofList ['-', c])

end Switch

/-- A word that is taken for a switch. -/
structure Flag where
  /-- The switch, if it is known. -/
  switch : Option Switch
  /-- Whether it is written with a single dash. -/
  short : Bool
  /-- The value in the same word. -/
  value : Option (List Char)
  deriving DecidableEq, Repr

/-- What a word is taken for. -/
inductive WordKind where
  /-- A value, or nothing that is known. -/
  | plain
  /-- A switch. -/
  | flag (flag : Flag)
  /-- The beginning of several switches. -/
  | ambiguous
  /-- Two dashes alone; after them nothing is a switch. -/
  | separator
  deriving DecidableEq, Repr

namespace WordKind

/-- Whether a word is a dash and digits, perhaps with a point before the last of them; a line feed
may follow. -/
def isNegativeNumber (cs : List Char) : Bool :=
  match cs with
  | '-' :: rest =>
    let rest := if rest.getLast? = some '\n' then rest.dropLast else rest
    let isDigit (c : Char) : Bool := (Text.digitValue? c).isSome
    match Text.cutFirst '.' rest with
    | (whole, none) => !whole.isEmpty && whole.all isDigit
    | (whole, some part) => whole.all isDigit && !part.isEmpty && part.all isDigit
  | _ => false

/-- The kind of a word that is no known switch. -/
def ofUnknown (cs : List Char) : WordKind :=
  if isNegativeNumber cs || cs.contains ' ' then .plain else .flag ⟨none, false, none⟩

/-- The kind of a word that begins with two dashes and is no whole switch. -/
def ofLong (cs : List Char) : WordKind :=
  let (start, value) := Text.cutFirst '=' cs
  match Switch.written.filter fun (w, _) => Text.startsWith start w.toList with
  | [] => ofUnknown cs
  | [(_, switch)] => .flag ⟨some switch, false, value⟩
  | _ => .ambiguous

/-- The kind of a word that begins with a dash and a letter and is no whole switch. -/
def ofShort (cs : List Char) (letter : Char) (rest : List Char) : WordKind :=
  match Switch.ofLetter? letter with
  | some switch => .flag ⟨some switch, true, some rest⟩
  | none => ofUnknown cs

/-- The kind of a word. -/
def of (word : String) : WordKind :=
  match word.toList with
  | '-' :: c :: cs =>
    match Switch.ofWritten? word with
    | some switch => .flag ⟨some switch, c ≠ '-', none⟩
    | none =>
      let (start, value) := Text.cutFirst '=' ('-' :: c :: cs)
      match value, Switch.ofWritten? (String.ofList start) with
      | some value, some switch => .flag ⟨some switch, c ≠ '-', some value⟩
      | _, _ => if c = '-' then ofLong ('-' :: c :: cs) else ofShort ('-' :: c :: cs) c cs
  | _ => .plain

end WordKind

/-- What the program is to run instead of asking for lines. -/
inductive Order where
  /-- One line. -/
  | line (text : String)
  /-- Nothing that could be run: two dashes alone stand for no value. -/
  | nothing
  deriving DecidableEq, Repr

/-- The order that a value stands for. -/
def Order.ofValue (value : String) : Order := if value = "--" then .nothing else .line value

/-- What the program is started with. -/
structure Arguments where
  /-- What is to be run instead of asking for lines. -/
  command : Option Order
  /-- Whether the saved tree is to be forgotten. -/
  reset : Bool
  deriving DecidableEq, Repr

/-- What reading the arguments comes to. -/
inductive Start where
  /-- The program goes on. -/
  | run (arguments : Arguments)
  /-- The program ends with a code. -/
  | exit (code : Nat)
  deriving DecidableEq, Repr

namespace Arguments

/-- The code of wrong use. -/
def wrongUse : Nat := 2

/-- What the switches in one word come to. -/
inductive Step where
  /-- These switches take effect, in this order, with the value of the last. -/
  | take (switches : List (Switch × Option String))
  /-- The last switch, after these, needs the next word as its value. -/
  | needValue (switches : List (Switch × Option String))
  /-- The word is refused. -/
  | refuse

/-- A switch before those of a step. -/
def Step.cons (s : Switch × Option String) : Step → Step
  | .take switches => .take (s :: switches)
  | .needValue switches => .needValue (s :: switches)
  | .refuse => .refuse

/-- What a switch without a value in its word comes to. -/
def stepBare (switch : Switch) : Step :=
  match switch with
  | .command => .needValue []
  | s => .take [(s, none)]

/-- What a switch with a value in its word comes to; the letters after one with a single dash that
takes no value are more switches. -/
def stepValue (switch : Switch) (short : Bool) : List Char → Step
  | [] =>
    match switch with
    | .command => .take [(.command, some "")]
    | _ => .refuse
  | c :: cs =>
    match switch with
    | .command => .take [(.command, some (String.ofList (c :: cs)))]
    | s =>
      match short, Switch.ofLetter? c with
      | true, some next =>
        match cs with
        | [] => (stepBare next).cons (s, none)
        | d :: ds => (stepValue next true (d :: ds)).cons (s, none)
      | _, _ => .refuse

/-- What a flag comes to. -/
def stepOf (switch : Switch) (f : Flag) : Step :=
  match f.value with
  | none => stepBare switch
  | some value => stepValue switch f.short value

/-- Let switches take effect; `none` if one of them asks for help. -/
def withSwitches? (a : Arguments) : List (Switch × Option String) → Option Arguments
  | [] => some a
  | (.help, _) :: _ => none
  | (.reset, _) :: rest => withSwitches? { a with reset := true } rest
  | (.command, value) :: rest => withSwitches? { a with command := value.map Order.ofValue } rest

/-- Read words with their kinds; `leftOver` tells whether one was refused before. -/
def readFrom (a : Arguments) (leftOver : Bool) : List (String × WordKind) → Start
  | [] => if leftOver then .exit wrongUse else .run a
  | (_, .plain) :: rest | (_, .ambiguous) :: rest | (_, .separator) :: rest =>
    readFrom a true rest
  | (_, .flag f) :: rest =>
    match f.switch with
    | none => readFrom a true rest
    | some switch =>
      match stepOf switch f with
      | .refuse => .exit wrongUse
      | .take switches =>
        match a.withSwitches? switches with
        | none => .exit 0
        | some a => readFrom a leftOver rest
      | .needValue switches =>
        match rest with
        | (value, .plain) :: rest =>
          match a.withSwitches? (switches ++ [(.command, some value)]) with
          | none => .exit 0
          | some a => readFrom a leftOver rest
        | _ => .exit wrongUse

/-- Words with their kinds; after two dashes alone no word is a switch. -/
def kinds : List String → List (String × WordKind)
  | [] => []
  | word :: rest =>
    if word = "--" then (word, .separator) :: rest.map fun w => (w, .plain)
    else (word, WordKind.of word) :: kinds rest

/-- What the words that the program is started with come to. -/
def read (words : List String) : Start :=
  if (kinds words).any fun (_, kind) => kind = .ambiguous then .exit wrongUse
  else readFrom ⟨none, false⟩ false (kinds words)

end Arguments

end TreeShell
