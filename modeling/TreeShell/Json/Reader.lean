import TreeShell.Json.Basic
import TreeShell.Text.Numeral
import TreeShell.Text.Wide

/-!
# Reading values

A value is read from the front of a text. What is wrong with a text is told by its place: how many
characters of it are left there, from which its line, its column and its offset follow. Of two
fields with the same name the later value counts, in the earlier place.
-/

namespace TreeShell.Json

/-- Why a text is no value. -/
inductive Fault where
  | value
  | extraData
  | propertyName
  | colon
  | comma
  | unterminated
  | control
  | escape
  | unicodeEscape
  | byteOrderMark
  deriving DecidableEq, Repr

/-- The wording of a fault. -/
def Fault.message : Fault → String
  | .value => "Expecting value"
  | .extraData => "Extra data"
  | .propertyName => "Expecting property name enclosed in double quotes"
  | .colon => "Expecting ':' delimiter"
  | .comma => "Expecting ',' delimiter"
  | .unterminated => "Unterminated string starting at"
  | .control => "Invalid control character at"
  | .escape => "Invalid \\escape"
  | .unicodeEscape => "Invalid \\uXXXX escape"
  | .byteOrderMark => "Unexpected UTF-8 BOM (decode using utf-8-sig)"

/-- Why reading stopped: a fault with the number of characters left where it is, or a whole number
with too many digits. -/
inductive Stop where
  | fault (fault : Fault) (left : Nat)
  | numeral (digits : Nat)
  deriving DecidableEq, Repr

/-- What is wrong with a text as a whole. -/
inductive ReadError where
  /-- A fault and the number of characters before it, with the line and column it is in. -/
  | syntaxFault (fault : Fault) (line column offset : Nat)
  /-- A whole number has more digits than are read. -/
  | numeral (digits : Nat)
  deriving DecidableEq, Repr

/-- What is said about a text that is no value. -/
def ReadError.message : ReadError → String
  | .syntaxFault fault line column offset =>
    fault.message ++ ": line " ++ toString line ++ " column " ++ toString column ++
      " (char " ++ toString offset ++ ")"
  | .numeral digits => (Text.NumeralError.tooLong digits).message

/-- Whether a character may stand between the parts of a value. -/
def isSpace (c : Char) : Bool := c == ' ' || c == '\t' || c == '\n' || c == '\r'

/-- A text without the spaces in front. -/
def skipSpace (cs : List Char) : List Char := cs.dropWhile isSpace

/-- The number of four hexadecimal digits. -/
def hexFour? : List Char → Option (Nat × List Char)
  | a :: b :: c :: d :: rest => do
    let a ← Text.hexValue? a
    let b ← Text.hexValue? b
    let c ← Text.hexValue? c
    let d ← Text.hexValue? d
    pure (((a * 16 + b) * 16 + c) * 16 + d, rest)
  | _ => none

/-- The character of a simple escape. -/
def simpleEscape? : Char → Option Char
  | '"' => some '"'
  | '\\' => some '\\'
  | '/' => some '/'
  | 'b' => some '\x08'
  | 'f' => some '\x0c'
  | 'n' => some '\n'
  | 'r' => some '\r'
  | 't' => some '\t'
  | _ => none

/-- The character after the mark of an escape by code, given what follows the mark, and the rest. -/
def unicodeEscape (cs : List Char) : Except Stop (Char × List Char) :=
  if cs.length < 5 then .error (.fault .unicodeEscape (cs.length + 1))
  else
    match hexFour? cs with
    | none => .error (.fault .unicodeEscape (cs.length + 1))
    | some (n, rest) =>
      match rest with
      | '\\' :: 'u' :: more =>
        if Text.isHighHalf n ∧ 4 < more.length then
          match hexFour? more with
          | none => .error (.fault .unicodeEscape (more.length + 1))
          | some (m, rest') =>
            if Text.isLowHalf m then .ok (Text.joinHalves n m, rest')
            else .ok (Text.loneUnit n, rest)
        else .ok (Text.loneUnit n, rest)
      | _ => .ok (Text.loneUnit n, rest)

/-- The characters of a text up to its closing quote, and what follows the quote. `start` is what is
left at the opening quote. -/
def stringBody (start : Nat) : (fuel : Nat) → List Char → Except Stop (List Char × List Char)
  | 0, _ => .error (.fault .unterminated start)
  | fuel + 1, cs =>
    match cs with
    | [] => .error (.fault .unterminated start)
    | '"' :: rest => .ok ([], rest)
    | '\\' :: [] => .error (.fault .unterminated start)
    | '\\' :: 'u' :: rest => do
      let (c, rest) ← unicodeEscape rest
      let (body, rest) ← stringBody start fuel rest
      pure (c :: body, rest)
    | '\\' :: e :: rest =>
      match simpleEscape? e with
      | none => .error (.fault .escape (rest.length + 2))
      | some c => do
        let (body, rest) ← stringBody start fuel rest
        pure (c :: body, rest)
    | c :: rest =>
      if c.toNat < 0x20 then .error (.fault .control (rest.length + 1))
      else do
        let (body, rest) ← stringBody start fuel rest
        pure (c :: body, rest)

/-- Whether a character is a plain decimal digit. -/
def isPlainDigit (c : Char) : Bool := '0' ≤ c && c ≤ '9'

/-- The plain digits in front of a text, and the rest. -/
def plainDigits (cs : List Char) : List Char × List Char :=
  (cs.takeWhile isPlainDigit, cs.dropWhile isPlainDigit)

/-- The number with the given plain digits. -/
def digitsValue (ds : List Char) : Nat := ds.foldl (fun n d => 10 * n + (d.toNat - 48)) 0

/-- The digits after a point, if a point with a digit after it stands in front, and the rest. -/
def fractionPart (cs : List Char) : Option (List Char × List Char) :=
  match cs with
  | '.' :: d :: rest => if isPlainDigit d then some (plainDigits (d :: rest)) else none
  | _ => none

/-- The power of ten in front of a text, if one is complete, and the rest. -/
def exponentPart (cs : List Char) : Option (Int × List Char) :=
  let digits (negative : Bool) (cs : List Char) : Option (Int × List Char) :=
    match plainDigits cs with
    | ([], _) => none
    | (ds, rest) =>
      -- a power of more than nine digits is as good as any other that large
      let n : Nat := if 9 < (ds.dropWhile (· == '0')).length then 1000000000 else digitsValue ds
      some (if negative then -(n : Int) else n, rest)
  match cs with
  | e :: '+' :: rest => if e = 'e' ∨ e = 'E' then digits false rest else none
  | e :: '-' :: rest => if e = 'e' ∨ e = 'E' then digits true rest else none
  | e :: rest => if e = 'e' ∨ e = 'E' then digits false rest else none
  | [] => none

/-- The digits before the point: a zero alone, or digits that begin with none. -/
def wholePart (cs : List Char) : Option (List Char × List Char) :=
  match cs with
  | '0' :: rest => some (['0'], rest)
  | c :: rest => if isPlainDigit c then some (plainDigits (c :: rest)) else none
  | [] => none

/-- A number in front of a text, and the rest. -/
def number (cs : List Char) : Except Stop (Json × List Char) :=
  let (negative, unsigned) := match cs with
    | '-' :: rest => (true, rest)
    | _ => (false, cs)
  match wholePart unsigned with
  | none => .error (.fault .value cs.length)
  | some (whole, rest) =>
    let fraction := fractionPart rest
    let rest := (fraction.map Prod.snd).getD rest
    let power := exponentPart rest
    let rest := (power.map Prod.snd).getD rest
    if fraction.isNone && power.isNone then
      if Text.maxDigits < whole.length then .error (.numeral whole.length)
      else .ok (.int (if negative then -(digitsValue whole : Int) else digitsValue whole), rest)
    else
      let places := (fraction.map Prod.fst).getD []
      let shift := ((power.map Prod.fst).getD 0) - (places.length : Int)
      .ok (.float (.ofDecimal negative (digitsValue (whole ++ places)) shift), rest)

/-- What follows a word in front of a text. -/
def afterWord (word : String) (cs : List Char) : Option (List Char) :=
  if cs.take word.length = word.toList then some (cs.drop word.length) else none

/-- The words that stand for values. -/
def wordValues : List (String × Json) :=
  [("null", .null), ("true", .bool true), ("false", .bool false), ("NaN", .float .undefined),
   ("Infinity", .float (.infinite false)), ("-Infinity", .float (.infinite true))]

/-- A value without items in front of a text, and the rest. -/
def atom (cs : List Char) : Except Stop (Json × List Char) :=
  match wordValues.findSome? fun (word, v) => (afterWord word cs).map fun rest => (v, rest) with
  | some found => .ok found
  | none => number cs

mutual

/-- A value in front of a text, and the rest. -/
def value : (fuel : Nat) → List Char → Except Stop (Json × List Char)
  | 0, cs => .error (.fault .value cs.length)
  | fuel + 1, cs =>
    match cs with
    | '"' :: rest => do
      let (body, rest) ← stringBody cs.length cs.length rest
      pure (.string (String.ofList body), rest)
    | '[' :: rest =>
      match skipSpace rest with
      | ']' :: rest => .ok (.array [], rest)
      | rest => do
        let (items, rest) ← items fuel rest
        pure (.array items, rest)
    | '\x7b' :: rest =>
      match skipSpace rest with
      | '\x7d' :: rest => .ok (.object [], rest)
      | rest => do
        let (fields, rest) ← fields fuel [] rest
        pure (.object fields, rest)
    | _ => atom cs

/-- The items of a list from the next one on, and what follows the list. -/
def items : (fuel : Nat) → List Char → Except Stop (List Json × List Char)
  | 0, cs => .error (.fault .value cs.length)
  | fuel + 1, cs => do
    let (item, rest) ← value fuel cs
    match skipSpace rest with
    | ']' :: rest => pure ([item], rest)
    | ',' :: rest => do
      let (more, rest) ← items fuel (skipSpace rest)
      pure (item :: more, rest)
    | rest => .error (.fault .comma rest.length)

/-- The fields of an object from the next one on, put after those already read, and what follows the
object. -/
def fields : (fuel : Nat) → List (String × Json) → List Char →
    Except Stop (List (String × Json) × List Char)
  | 0, _, cs => .error (.fault .propertyName cs.length)
  | fuel + 1, known, cs =>
    match cs with
    | '"' :: rest => do
      let (name, rest) ← stringBody cs.length cs.length rest
      match skipSpace rest with
      | ':' :: rest => do
        let (v, rest) ← value fuel (skipSpace rest)
        let known := setField (String.ofList name) v known
        match skipSpace rest with
        | '\x7d' :: rest => pure (known, rest)
        | ',' :: rest => fields fuel known (skipSpace rest)
        | rest => .error (.fault .comma rest.length)
      | rest => .error (.fault .colon rest.length)
    | _ => .error (.fault .propertyName cs.length)

end

/-- Where `left` characters of a text are left: its line, its column and its offset. -/
def placeOf (cs : List Char) (left : Nat) : Nat × Nat × Nat :=
  let before := cs.take (cs.length - left)
  (before.count '\n' + 1, (before.reverse.takeWhile (· != '\n')).length + 1, before.length)

/-- Say of a text where reading it stopped. -/
def Stop.inText (cs : List Char) : Stop → ReadError
  | .fault f left =>
    let (line, column, offset) := placeOf cs left
    .syntaxFault f line column offset
  | .numeral digits => .numeral digits

/-- The value that a text is, with nothing but spaces around it. -/
def read (text : String) : Except ReadError Json :=
  let cs := text.toList
  if cs.head? = some '\uFEFF' then .error (Stop.inText cs (.fault .byteOrderMark cs.length))
  else
    match value (2 * cs.length + 2) (skipSpace cs) with
    | .error stop => .error (stop.inText cs)
    | .ok (v, rest) =>
      match skipSpace rest with
      | [] => .ok v
      | left => .error (Stop.inText cs (.fault .extraData left.length))

end TreeShell.Json
