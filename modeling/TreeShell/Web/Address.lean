import TreeShell.Web.Host

/-!
# Addresses

An address is a scheme before a colon, a host after two slashes, a path, and a query and a fragment,
which do not matter here. All but the path may be left out.
-/

namespace TreeShell.Web

/-- The parts of an address that matter. -/
structure Address where
  /-- The scheme in small letters; empty if there is none. -/
  scheme : List Char
  /-- The host as it is written; empty if there is none. -/
  host : List Char
  /-- The path as it is written. -/
  path : List Char
  deriving DecidableEq, Repr

namespace Address

/-- Whether a character is passed over in front of an address. -/
def isPassedOver (c : Char) : Bool := c.toNat ≤ ' '.toNat

/-- Whether a character is dropped wherever it stands in an address. -/
def isDropped (c : Char) : Bool := c == '\t' || c == '\n' || c == '\r'

/-- Whether a character may stand in a scheme. -/
def isSchemeChar (c : Char) : Bool := c.isAlphanum || c == '+' || c == '-' || c == '.'

/-- The scheme of an address, and what follows it. -/
def cutScheme (cs : List Char) : List Char × List Char :=
  match Text.cutFirst ':' cs with
  | (c :: more, some rest) =>
    if c.isAlpha && more.all isSchemeChar then ((c :: more).map Char.toLower, rest) else ([], cs)
  | _ => ([], cs)

/-- Whether a character ends a host. -/
def endsHost (c : Char) : Bool := c == '/' || c == '?' || c == '#'

/-- The host of an address without its scheme, and what follows it. -/
def cutHost : List Char → List Char × List Char
  | '/' :: '/' :: cs => (cs.takeWhile fun c => !endsHost c, cs.dropWhile fun c => !endsHost c)
  | cs => ([], cs)

/-- The parts of an address. -/
def read (cs : List Char) : Except AddressError Address :=
  let (scheme, rest) := cutScheme ((cs.dropWhile isPassedOver).filter fun c => !isDropped c)
  let (host, rest) := cutHost rest
  match Host.bracketFault? host with
  | some fault => .error fault
  | none => .ok ⟨scheme, host, (Text.cutFirst '?' (Text.cutFirst '#' rest).1).1⟩

/-- An address in its normal form, if its host can be used. -/
def normal (a : Address) : Except AddressError (List Char) := do
  let host ← (Host.ofText a.host).normal
  return (if a.scheme.isEmpty then [] else a.scheme ++ [':']) ++
    (if host.isEmpty then [] else '/' :: '/' :: host) ++ a.path

end Address

end TreeShell.Web
