import TreeShell.Decimal.Double

/-!
# The shortest decimal

The fewest decimal digits that read back as the same number, and among those the ones nearest to it.
The numbers that read back as `m * 2 ^ e` form an interval around it, whose ends belong to it when
`m` is even; on the grid of each length only the two neighbours of the number have to be tried.
-/

namespace TreeShell.Decimal

/-- An interval around a number, all over one denominator. -/
structure Interval where
  /-- The lower end. -/
  low : Nat
  /-- The number itself. -/
  mid : Nat
  /-- The upper end. -/
  high : Nat
  /-- The denominator. -/
  den : Nat
  /-- Whether the ends belong to the interval. -/
  closed : Bool

/-- The interval of the numbers that are taken to `m * 2 ^ e`. -/
def Interval.around (m : Nat) (e : Int) : Interval :=
  let up := Nat.pow 2 e.toNat
  let below := if m = Nat.pow 2 (mantissaBits - 1) ∧ leastExponent < e then 1 else 2
  { low := (4 * m - below) * up, mid := 4 * m * up, high := (4 * m + 2) * up
    den := 4 * Nat.pow 2 (-e).toNat, closed := m % 2 == 0 }

/-- Whether `num / den` lies in the interval. -/
def Interval.holds (i : Interval) (num den : Nat) : Bool :=
  let x := num * i.den
  if i.closed then i.low * den ≤ x && x ≤ i.high * den else i.low * den < x && x < i.high * den

/-- The number of zeros, counted up from `count`, that stand before the first digit of `num / den`
after the point. -/
def leadingZeros (num den : Nat) : (fuel count : Nat) → Nat
  | 0, count => count
  | fuel + 1, count =>
    if den ≤ num * 10 then count else leadingZeros (num * 10) den fuel (count + 1)

/-- The power of ten of the first digit of `num / den`. -/
def leadingPower (num den : Nat) : Int :=
  if den ≤ num then (digitCount (num / den) : Int) - 1
  else -(leadingZeros num den 400 1 : Int)

/-- The fraction `count * 10 ^ unit`. -/
def gridPoint (count : Nat) (unit : Int) : Nat × Nat :=
  (count * Nat.pow 10 unit.toNat, Nat.pow 10 (-unit).toNat)

/-- The nearer of the two neighbours of the middle on the grid of `10 ^ unit` that lie in the
interval, if one does; of two equally near the even one. -/
def Interval.onGrid? (i : Interval) (unit : Int) : Option Nat :=
  let up := Nat.pow 10 unit.toNat
  let down := Nat.pow 10 (-unit).toNat
  let below := i.mid * down / (i.den * up)
  let lies := fun count => let (num, den) := gridPoint count unit; i.holds num den
  let twice := 2 * i.mid * down
  let half := (2 * below + 1) * (i.den * up)
  match lies below, lies (below + 1) with
  | true, true =>
    some (if twice < half ∨ (twice = half ∧ below % 2 = 0) then below else below + 1)
  | true, false => some below
  | false, true => some (below + 1)
  | false, false => none

/-- The first grid with a point in the interval, from `length` digits on. -/
def Interval.search (i : Interval) (power : Int) : (fuel length : Nat) → Nat × Int
  | 0, length => (i.mid / i.den, power - length + 1)
  | fuel + 1, length =>
    match i.onGrid? (power - length + 1) with
    | some count => (count, power - length + 1)
    | none => i.search power fuel (length + 1)

/-- A count without the zeros it ends with, and the unit that makes up for them. -/
def stripZeros : (fuel count : Nat) → (unit : Int) → Nat × Int
  | 0, count, unit => (count, unit)
  | fuel + 1, count, unit =>
    if count % 10 = 0 ∧ count ≠ 0 then stripZeros fuel (count / 10) (unit + 1) else (count, unit)

/-- The shortest decimal `digits * 10 ^ unit` that reads back as `m * 2 ^ e`. -/
def shortest (m : Nat) (e : Int) : Nat × Int :=
  let i := Interval.around m e
  let (count, unit) := i.search (leadingPower i.mid i.den) 17 1
  stripZeros 20 count unit

/-- How a shortest decimal is written. -/
structure Style where
  /-- The least power of ten of the first digit that is written with the digits in place. -/
  leastInPlace : Int
  /-- The largest one. -/
  largestInPlace : Int
  /-- The text of a number too large. -/
  infinite : String
  /-- The text of no number. -/
  undefined : String

/-- A power of ten after its mark, with a sign and at least two digits. -/
def powerText (power : Int) : String :=
  (if power < 0 then "e-" else "e+") ++
    (if power.natAbs < 10 then "0" else "") ++ toString power.natAbs

/-- Digits with a point after the first `whole` of them, and a zero where a side would be empty. -/
def pointText (digits : List Char) (whole : Int) : String :=
  if whole ≤ 0 then
    "0." ++ String.ofList (List.replicate (-whole).toNat '0' ++ digits)
  else
    let padded := digits ++ List.replicate (whole.toNat - digits.length) '0'
    let after := padded.drop whole.toNat
    String.ofList (padded.take whole.toNat) ++ "." ++
      (if after.isEmpty then "0" else String.ofList after)

/-- The text of a number. -/
def Double.text (style : Style) : Double → String
  | .undefined => style.undefined
  | .infinite negative => (if negative then "-" else "") ++ style.infinite
  | .finite negative m e =>
    let sign := if negative then "-" else ""
    if m = 0 then sign ++ "0.0"
    else
      let (count, unit) := shortest m e
      let digits := Nat.toDigits 10 count
      let power := unit + digits.length - 1
      if style.leastInPlace ≤ power ∧ power ≤ style.largestInPlace then
        sign ++ pointText digits (power + 1)
      else
        sign ++ String.ofList (digits.take 1) ++
          (if digits.length = 1 then "" else "." ++ String.ofList (digits.drop 1)) ++
          powerText power

end TreeShell.Decimal
