import TreeShell.Text.Blank
import TreeShell.Text.Digit
import TreeShell.Text.Quoted

/-!
# Numerals

Whole numbers read from text: blanks may stand around the numeral, a sign before it, and single
underscores between its digits. The digits may be decimal digits of any script. More than 4300
digits are refused.
-/

namespace TreeShell.Text

/-- The most digits a numeral may have. -/
def maxDigits : Nat := 4300

/-- Why a text is not read as a number. -/
inductive NumeralError where
  /-- The text is no numeral. -/
  | malformed (text : String)
  /-- The numeral has more digits than are read. -/
  | tooLong (digits : Nat)
  deriving DecidableEq, Repr

/-- What is said about a text that is not read as a number; a long text is shown in part. -/
def NumeralError.message : NumeralError → String
  | .malformed text =>
    "invalid literal for int() with base 10: " ++
      String.ofList ((quotedChars text.toList).take 200)
  | .tooLong digits =>
    "Exceeds the limit (" ++ toString maxDigits ++
      " digits) for integer string conversion: value has " ++ toString digits ++
      " digits; use sys.set_int_max_str_digits() to increase the limit"

/-- Whether a blank may stand beside a numeral: the information separators may not. -/
def isNumeralBlank (c : Char) : Bool := isBlank c && !(28 ≤ c.toNat && c.toNat ≤ 31)

/-- The digits in front of a text, with single underscores between them passed over, and the rest;
`none` if an underscore stands where none may. -/
def digitRun : (afterDigit : Bool) → List Char → Option (List Nat × List Char)
  | afterDigit, '_' :: cs => if afterDigit then digitRun false cs else none
  | afterDigit, c :: cs =>
    match digitValue? c with
    | some d => (digitRun true cs).map fun (ds, rest) => (d :: ds, rest)
    | none => if afterDigit then some ([], c :: cs) else none
  | afterDigit, [] => if afterDigit then some ([], []) else none

/-- The number with the given decimal digits, the highest first. -/
def ofDigits (ds : List Nat) : Nat := ds.foldl (fun n d => 10 * n + d) 0

/-- The sign in front of a text, as whether it is a minus, and the rest. -/
def signOf : List Char → Bool × List Char
  | '-' :: cs => (true, cs)
  | '+' :: cs => (false, cs)
  | cs => (false, cs)

/-- The number a text stands for. -/
def readInt (text : String) : Except NumeralError Int :=
  let (negative, unsigned) := signOf (text.toList.dropWhile isNumeralBlank)
  match digitRun false unsigned with
  | none => .error (.malformed text)
  | some (ds, rest) =>
    if maxDigits < ds.length then .error (.tooLong ds.length)
    else if rest.all isNumeralBlank then
      .ok (if negative then -(ofDigits ds : Int) else ofDigits ds)
    else .error (.malformed text)

end TreeShell.Text
