import TreeShell.Json.Reader
import TreeShell.Text.Utf8

/-!
# Values as bytes

A value that comes as bytes may be written in units of one, two or four bytes. A value begins with
two characters below 128, so that the zeros among the first bytes tell the units apart; bytes
without such zeros are UTF-8, with or without a byte order mark.
-/

namespace TreeShell.Json

/-- How a text is written in bytes. -/
inductive Encoding where
  /-- In units of one byte. -/
  | narrow
  /-- In units of two bytes. -/
  | two (order : Text.ByteOrder)
  /-- In units of four bytes. -/
  | four (order : Text.ByteOrder)
  deriving DecidableEq, Repr

namespace Encoding

/-- The encoding that the zeros among the first bytes tell. -/
def of : List UInt8 → Encoding
  | a :: b :: c :: d :: _ =>
    if a = 0 then if b = 0 then .four .bigFirst else .two .bigFirst
    else if b = 0 then if c = 0 ∧ d = 0 then .four .littleFirst else .two .littleFirst
    else .narrow
  | [a, b] => if a = 0 then .two .bigFirst else if b = 0 then .two .littleFirst else .narrow
  | _ => .narrow

/-- The text of some bytes, if they are one; a byte order mark in front is no part of it. -/
def decode? (e : Encoding) (bytes : List UInt8) : Option (List Char) :=
  match e with
  | .narrow =>
    (Text.decodeUtf8 bytes).toOption.map fun
      | '\uFEFF' :: cs => cs
      | cs => cs
  | .two order => (Text.unitsOfTwo? order bytes).map Text.decodeHalves
  | .four order => (Text.unitsOfFour? order bytes).bind Text.decodeWhole?

end Encoding

/-- The value that some bytes are, if they are one. -/
def ofBytes? (bytes : List UInt8) : Option Json :=
  ((Encoding.of bytes).decode? bytes).bind fun cs => (read (String.ofList cs)).toOption

end TreeShell.Json
