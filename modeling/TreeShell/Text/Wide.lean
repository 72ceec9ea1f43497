/-!
# Text in wide units

Text as units of two bytes, in which a character beyond the first 65536 takes two units, or as units
of four bytes, one for every character. The bytes of a unit stand in one order or the other.
-/

namespace TreeShell.Text

/-- Which byte of a unit comes first. -/
inductive ByteOrder where
  /-- The most significant one. -/
  | bigFirst
  /-- The least significant one. -/
  | littleFirst
  deriving DecidableEq, Repr

/-- The number that the bytes of a unit stand for. -/
def ByteOrder.number (order : ByteOrder) (bytes : List UInt8) : Nat :=
  let ordered := match order with
    | .bigFirst => bytes
    | .littleFirst => bytes.reverse
  ordered.foldl (fun n b => n * 256 + b.toNat) 0

/-- The units of two bytes that some bytes are; `none` if one byte is left. -/
def unitsOfTwo? (order : ByteOrder) : List UInt8 → Option (List Nat)
  | [] => some []
  | a :: b :: rest => (unitsOfTwo? order rest).map (order.number [a, b] :: ·)
  | [_] => none

/-- The units of four bytes that some bytes are; `none` if some bytes are left. -/
def unitsOfFour? (order : ByteOrder) : List UInt8 → Option (List Nat)
  | [] => some []
  | a :: b :: c :: d :: rest => (unitsOfFour? order rest).map (order.number [a, b, c, d] :: ·)
  | _ => none

/-- Whether a unit is the first half of a character. -/
def isHighHalf (n : Nat) : Bool := 0xD800 ≤ n && n < 0xDC00

/-- Whether a unit is the second half of a character. -/
def isLowHalf (n : Nat) : Bool := 0xDC00 ≤ n && n < 0xE000

/-- The character of two halves. -/
def joinHalves (high low : Nat) : Char :=
  Char.ofNat (0x10000 + (high - 0xD800) * 1024 + (low - 0xDC00))

/-- The character of a unit alone. A half without the other half stands for no character, and gives
the one for what cannot be shown. -/
def loneUnit (n : Nat) : Char := if isHighHalf n || isLowHalf n then '\uFFFD' else Char.ofNat n

/-- The text of units of two bytes. -/
def decodeHalves : List Nat → List Char
  | [] => []
  | [n] => [loneUnit n]
  | n :: m :: rest =>
    if isHighHalf n && isLowHalf m then joinHalves n m :: decodeHalves rest
    else loneUnit n :: decodeHalves (m :: rest)

/-- The text of units of four bytes; a number beyond those of all characters is refused. -/
def decodeWhole? (units : List Nat) : Option (List Char) :=
  units.mapM fun n => if n < 0x110000 then some (loneUnit n) else none

end TreeShell.Text
