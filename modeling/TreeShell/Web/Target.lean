import TreeShell.Text.Utf8
import TreeShell.Web.Address

/-!
# Request targets

What a request is for is written as an address, of which only the path matters, and whether its
scheme asks for a lasting connection. In the path, a percent sign with two hexadecimal digits stands
for a byte.
-/

namespace TreeShell.Web

/-- What a request is for. -/
structure Target where
  /-- Whether a lasting connection is asked for. -/
  lasting : Bool
  /-- The path; empty if there is none. -/
  path : List Char
  deriving DecidableEq, Repr

namespace Target

/-- The code of a percent sign. -/
def percent : UInt8 := 0x25

/-- The value of a byte that is a hexadecimal digit. -/
def hexValue? (b : UInt8) : Option Nat := Text.hexValue? (Char.ofNat b.toNat)

/-- The bytes of a path with each percent sign and two digits taken for a byte. -/
def unescape : List UInt8 → List UInt8
  | a :: b :: c :: rest =>
    match a == percent, hexValue? b, hexValue? c with
    | true, some high, some low => UInt8.ofNat (high * 16 + low) :: unescape rest
    | _, _, _ => a :: unescape (b :: c :: rest)
  | bytes => bytes

/-- A path that is not empty, with one slash in front. -/
def rooted : List Char → List Char
  | [] => []
  | cs => '/' :: cs.dropWhile (· == '/')

/-- A path with every run of slashes taken for one. -/
def mergeSlashes : List Char → List Char
  | '/' :: '/' :: cs => mergeSlashes ('/' :: cs)
  | c :: cs => c :: mergeSlashes cs
  | [] => []

/-- Whether a scheme asks for a lasting connection. -/
def isLasting (scheme : List Char) : Bool :=
  scheme == "ws".toList || scheme == "wss".toList

/-- What a request to an address is for. A path that again is an address is read as one, and once
more; the hosts that are passed over last have to be such that can be used. -/
def read (address : String) : Except AddressError Target := do
  let outer ← Address.read address.toList
  let inner ← Address.read outer.path
  let path ← (← Address.read inner.path).normal
  let _ ← (Host.ofText outer.host).normal
  return ⟨isLasting outer.scheme, rooted (Text.repairUtf8 (unescape (Text.utf8 path)))⟩

end Target

end TreeShell.Web
