/-!
# UTF-8

Text as bytes and back. Decoding stops at the first byte that cannot be continued to a character and
says which bytes are at fault: the first alone, the bytes up to a wrong continuation, or all that is
left of a character cut short by the end.
-/

namespace TreeShell.Text

/-- The bytes of a text. -/
def utf8 (cs : List Char) : List UInt8 := cs.flatMap String.utf8EncodeChar

/-- What is wrong with bytes that are no text. -/
inductive Utf8Fault where
  /-- No character begins with this byte. -/
  | start
  /-- A byte cannot stand where it stands in a character. -/
  | continuation
  /-- The bytes end within a character. -/
  | cutShort
  deriving DecidableEq, Repr

/-- Bytes that are no text. -/
structure Utf8Error where
  /-- What is wrong. -/
  fault : Utf8Fault
  /-- The first byte at fault. -/
  byte : UInt8
  /-- How many bytes stand before it. -/
  position : Nat
  /-- How many bytes are at fault. -/
  count : Nat
  deriving DecidableEq, Repr

/-- The wording of a fault. -/
def Utf8Fault.message : Utf8Fault → String
  | .start => "invalid start byte"
  | .continuation => "invalid continuation byte"
  | .cutShort => "unexpected end of data"

/-- Whether a byte continues a character. -/
def isTail (b : UInt8) : Bool := 0x80 ≤ b && b < 0xC0

/-- Whether `b` may follow the first byte `a` of a character of three or four bytes. -/
def mayFollow (a b : UInt8) : Bool :=
  isTail b &&
    (if a == 0xE0 then 0xA0 ≤ b
     else if a == 0xED then b < 0xA0
     else if a == 0xF0 then 0x90 ≤ b
     else if a == 0xF4 then b < 0x90
     else true)

/-- The low six bits of a byte. -/
def tailBits (b : UInt8) : Nat := b.toNat % 64

/-- What the front of some bytes is: nothing, a character of `width` bytes, or a fault in `count`
bytes. -/
inductive Utf8Front where
  | nothing
  | char (c : Char) (width : Nat)
  | bad (fault : Utf8Fault) (count : Nat)
  deriving DecidableEq, Repr

/-- A character of three bytes in front of some bytes that begin with `a`. -/
def frontThree (a : UInt8) : List UInt8 → Utf8Front
  | [] => .bad .cutShort 1
  | [b] => if mayFollow a b then .bad .cutShort 2 else .bad .continuation 1
  | b :: c :: _ =>
    if !mayFollow a b then .bad .continuation 1
    else if !isTail c then .bad .continuation 2
    else .char (Char.ofNat (a.toNat % 16 * 4096 + tailBits b * 64 + tailBits c)) 3

/-- A character of four bytes in front of some bytes that begin with `a`. -/
def frontFour (a : UInt8) : List UInt8 → Utf8Front
  | [] => .bad .cutShort 1
  | [b] => if mayFollow a b then .bad .cutShort 2 else .bad .continuation 1
  | [b, c] =>
    if !mayFollow a b then .bad .continuation 1
    else if !isTail c then .bad .continuation 2
    else .bad .cutShort 3
  | b :: c :: d :: _ =>
    if !mayFollow a b then .bad .continuation 1
    else if !isTail c then .bad .continuation 2
    else if !isTail d then .bad .continuation 3
    else
      .char (Char.ofNat (a.toNat % 8 * 262144 + tailBits b * 4096 + tailBits c * 64 + tailBits d)) 4

/-- The front of some bytes. -/
def utf8Front : List UInt8 → Utf8Front
  | [] => .nothing
  | a :: rest =>
    if a < 0x80 then .char (Char.ofNat a.toNat) 1
    else if a < 0xC2 then .bad .start 1
    else if a < 0xE0 then
      match rest with
      | [] => .bad .cutShort 1
      | b :: _ =>
        if isTail b then .char (Char.ofNat (a.toNat % 32 * 64 + tailBits b)) 2
        else .bad .continuation 1
    else if a < 0xF0 then frontThree a rest
    else if a < 0xF5 then frontFour a rest
    else .bad .start 1

/-- The text of some bytes that stand after `position` others, in at most `fuel` characters. -/
def decodeFrom : (fuel position : Nat) → List UInt8 → Except Utf8Error (List Char)
  | 0, _, _ => .ok []
  | fuel + 1, position, bytes =>
    match utf8Front bytes with
    | .nothing => .ok []
    | .char c width => (decodeFrom fuel (position + width) (bytes.drop width)).map (c :: ·)
    | .bad fault count => .error ⟨fault, bytes.headD 0, position, count⟩

/-- What stands for bytes that are no text. -/
def replacement : Char := '\uFFFD'

/-- The text of some bytes in at most `fuel` characters, with a replacement for all that is no
text. -/
def repairFrom : (fuel : Nat) → List UInt8 → List Char
  | 0, _ => []
  | fuel + 1, bytes =>
    match utf8Front bytes with
    | .nothing => []
    | .char c width => c :: repairFrom fuel (bytes.drop width)
    | .bad _ count => replacement :: repairFrom fuel (bytes.drop count)

/-- The text of some bytes, with a replacement for all that is no text. -/
def repairUtf8 (bytes : List UInt8) : List Char := repairFrom bytes.length bytes

/-- The text of some bytes. -/
def decodeUtf8 (bytes : List UInt8) : Except Utf8Error (List Char) :=
  decodeFrom bytes.length 0 bytes

end TreeShell.Text
