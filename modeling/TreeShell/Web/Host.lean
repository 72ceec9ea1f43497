import TreeShell.Text.Cut
import TreeShell.Text.Numeral

/-!
# Hosts

The part of an address that says who is asked: a user before an at sign, a name, and a port after a
colon. The name may be a number of a host, which stands in brackets: eight groups of hexadecimal
digits between colons, of which two colons together leave out some, and four decimal numbers may
stand for the last two.
-/

namespace TreeShell.Web

/-- Why an address cannot be used. -/
inductive AddressError where
  /-- One bracket is there without the other. -/
  | bracket
  /-- What stands in brackets begins like a number of a kind yet to come, and is none. -/
  | futureNumber
  /-- Four decimal numbers stand in brackets. -/
  | decimalNumber
  /-- What stands in brackets is no number of a host. -/
  | noNumber (text : String)
  /-- The last part of the name is too long. -/
  | longEnd
  /-- Another part of the name is empty or too long. -/
  | part
  /-- The port has something else than digits. -/
  | port (text : String)
  /-- The port has more digits than are read. -/
  | portNumeral (error : Text.NumeralError)
  /-- There is no such port. -/
  | portRange
  deriving DecidableEq, Repr

namespace AddressError

/-- What is said when a name cannot be taken for that of a host. -/
def nameMessage (reason : String) : String :=
  "encoding with 'idna' codec failed (UnicodeError: " ++ reason ++ ")"

/-- What is said of an address that cannot be used. -/
def message : AddressError → String
  | .bracket => "Invalid IPv6 URL"
  | .futureNumber => "IPvFuture address is invalid"
  | .decimalNumber => "An IPv4 address cannot be in brackets"
  | .noNumber text => Text.quoted text ++ " does not appear to be an IPv4 or IPv6 address"
  | .longEnd => nameMessage "label too long"
  | .part => nameMessage "label empty or too long"
  | .port text => "Port could not be cast to integer value as " ++ Text.quoted text
  | .portNumeral error => error.message
  | .portRange => "Port out of range 0-65535"

end AddressError

/-- Who is asked. -/
structure Host where
  /-- The user, perhaps with a password; empty if none is named. -/
  user : List Char
  /-- The name without brackets; empty if there is none. -/
  name : List Char
  /-- The digits of the port; empty if none is named. -/
  port : List Char
  deriving DecidableEq, Repr

namespace Host

/-- Whether a text is a number up to 255 without zeros in front. -/
def isOctet (cs : List Char) : Bool :=
  cs == ['0'] ||
    (cs.all Char.isDigit && !cs.isEmpty && cs.head? != some '0' && cs.length ≤ 3 &&
      Text.ofDigits (cs.map fun c => c.toNat - '0'.toNat) ≤ 255)

/-- Whether a text is four decimal numbers with points between them. -/
def isDecimalNumber (cs : List Char) : Bool :=
  (Text.splitOn '.' cs).length == 4 && (Text.splitOn '.' cs).all isOctet

/-- Whether a text is a group of hexadecimal digits. -/
def isGroup (cs : List Char) : Bool :=
  !cs.isEmpty && cs.length ≤ 4 && cs.all fun c => (Text.hexValue? c).isSome

/-- The groups of a number, with two in place of four decimal numbers at the end. -/
def withoutDecimals (groups : List (List Char)) : Option (List (List Char)) :=
  match groups.getLast? with
  | some last =>
    if last.contains '.' then
      if isDecimalNumber last then some (groups.dropLast ++ [['0'], ['0']]) else none
    else some groups
  | none => some groups

/-- The groups on one side of those left out; a colon at that end of the number leaves no group. -/
def side (groups : List (List Char)) : List (List Char) := if groups == [[]] then [] else groups

/-- Whether groups make a number: all eight, or fewer on the two sides of an empty one that is
neither the first nor the last. -/
def makeNumber : List (List Char) → Bool
  | [] => false
  | first :: rest =>
    match rest.dropLast.span fun g => !g.isEmpty, rest.getLast? with
    | (front, _ :: back), some last =>
      let shown := side (first :: front) ++ side (back ++ [last])
      shown.length ≤ 7 && shown.all isGroup
    | _, _ => (first :: rest).length == 8 && (first :: rest).all isGroup

/-- Whether a text is a number of a host, perhaps with a zone after a percent sign. -/
def isNumber (cs : List Char) : Bool :=
  let (number, zone) := Text.cutFirst '%' cs
  let zoneFits := match zone with
    | none => true
    | some zone => !zone.isEmpty && !zone.contains '%'
  zoneFits && ((withoutDecimals (Text.splitOn ':' number)).map makeNumber).getD false

/-- Whether a text that begins with a v is a number of a kind yet to come: hexadecimal digits, a
point and something more. -/
def isFutureNumber (cs : List Char) : Bool :=
  match Text.cutFirst '.' (cs.drop 1) with
  | (digits, some (_ :: _)) =>
    !digits.isEmpty && digits.all fun c => (Text.hexValue? c).isSome
  | _ => false

/-- What is wrong with the text in the brackets of a host. -/
def numberFault? (cs : List Char) : Option AddressError :=
  if cs.head? = some 'v' then if isFutureNumber cs then none else some .futureNumber
  else if isDecimalNumber cs then some .decimalNumber
  else if isNumber cs then none
  else some (.noNumber (String.ofList cs))

/-- What is wrong with the brackets of a host as it is written. -/
def bracketFault? (cs : List Char) : Option AddressError :=
  match cs.contains '[', cs.contains ']' with
  | false, false => none
  | true, true => numberFault? (Text.cutFirst ']' ((Text.cutFirst '[' cs).2.getD [])).1
  | _, _ => some .bracket

/-- A name in small letters; the zone of a number stays. -/
def smallName (cs : List Char) : List Char :=
  (cs.takeWhile (· != '%')).map Char.toLower ++ cs.dropWhile (· != '%')

/-- A host from how it is written. -/
def ofText (cs : List Char) : Host :=
  let (user, place) := Text.cutLast '@' cs
  match Text.cutFirst '[' place with
  | (_, some inner) =>
    let (name, behind) := Text.cutFirst ']' inner
    ⟨user.getD [], smallName name, (Text.cutFirst ':' (behind.getD [])).2.getD []⟩
  | (plain, none) =>
    let (name, port) := Text.cutFirst ':' plain
    ⟨user.getD [], smallName name, port.getD []⟩

/-- The most characters that a part of a name may have. -/
def longestPart : Nat := 63

/-- What is wrong with the parts of a name, which may end with a point. -/
def partsFault? : List (List Char) → Option AddressError
  | [] => none
  | [last] => if longestPart < last.length then some .longEnd else none
  | p :: parts =>
    if p.isEmpty || longestPart < p.length then some .part else partsFault? parts

/-- Whether a text has only characters that a name is made of at last: those among the first 128. -/
def isPlain (cs : List Char) : Bool := cs.all fun c => c.toNat < 128

/-- Whether a character may stand for the point between two parts of a name. -/
def isPoint (c : Char) : Bool := c == '.' || c == '。' || c == '．' || c == '｡'

/-- What is wrong with a name; how long a part will be that is not plain is not looked into. -/
def nameFault? (cs : List Char) : Option AddressError :=
  if isPlain cs then partsFault? (Text.splitOn '.' cs)
  else
    let parts := Text.splitWhere isPoint cs
    let parts := if parts.getLast? = some [] then parts.dropLast else parts
    if parts.any fun p => p.isEmpty || (isPlain p && longestPart < p.length) then some .part
    else none

/-- The number of a port, 0 if none is named. -/
def portNumber (cs : List Char) : Except AddressError Int :=
  if cs.isEmpty then .ok 0
  else if !cs.all Char.isDigit then .error (.port (String.ofList cs))
  else
    match Text.readInt (String.ofList cs) with
    | .error e => .error (.portNumeral e)
    | .ok n => if n ≤ 65535 then .ok n else .error .portRange

/-- A user as it is written before a name; one without a name is left out. -/
def shownUser (user : List Char) : List Char :=
  if (Text.cutFirst ':' user).1.isEmpty then [] else user ++ ['@']

/-- A host in its normal form, if it can be used. -/
def normal (h : Host) : Except AddressError (List Char) := do
  if let some fault := nameFault? h.name then throw fault
  let port ← portNumber h.port
  let name := if h.name.contains ':' then '[' :: h.name ++ [']'] else h.name
  return shownUser h.user ++ name ++ (if port = 0 then [] else ':' :: (toString port).toList)

end Host

end TreeShell.Web
