/-!
# Numbers with fifty-three binary places

A number is a mantissa below 2^53 times a power of two not below 2^-1074, with a sign. A quotient of
whole numbers is taken to the nearest such number, a tie to the one with the even mantissa, and past
the largest to infinity. All arithmetic is exact, on whole numbers.
-/

namespace TreeShell.Decimal

/-- A number with a mantissa of fifty-three binary places. -/
inductive Double where
  /-- The number `mantissa * 2 ^ exponent`, or its negative. -/
  | finite (negative : Bool) (mantissa : Nat) (exponent : Int)
  /-- A number too large, or its negative. -/
  | infinite (negative : Bool)
  /-- No number. -/
  | undefined
  deriving DecidableEq, Repr, Inhabited

/-- The number of binary places of a mantissa. -/
def mantissaBits : Nat := 53

/-- The least exponent. -/
def leastExponent : Int := -1074

/-- The largest exponent. -/
def largestExponent : Int := 971

/-- The whole number nearest to `num / den`; a tie goes to the even one. -/
def roundHalfEven (num den : Nat) : Nat :=
  let q := num / den
  let r := num % den
  if 2 * r < den then q
  else if den < 2 * r then q + 1
  else q + q % 2

/-- The quotient `num / den` divided by `2 ^ e`, as a numerator and a denominator. -/
def scaledRatio (num den : Nat) (e : Int) : Nat × Nat :=
  if 0 ≤ e then (num, den * Nat.pow 2 e.toNat) else (num * Nat.pow 2 (-e).toNat, den)

/-- The exponent with which `num / den` has a mantissa of fifty-three places. -/
def exponentOf (num den : Nat) : Int :=
  let guess : Int := (num.log2 : Int) - den.log2 - (mantissaBits - 1)
  let (n, d) := scaledRatio num den guess
  max leastExponent (if n / d < Nat.pow 2 (mantissaBits - 1) then guess - 1 else guess)

/-- The number nearest to `num / den`, or to its negative. -/
def Double.ofRatio (negative : Bool) (num den : Nat) : Double :=
  if num = 0 then .finite negative 0 leastExponent
  else
    let e := exponentOf num den
    let (n, d) := scaledRatio num den e
    let m := roundHalfEven n d
    let (m, e) := if m = Nat.pow 2 mantissaBits then (m / 2, e + 1) else (m, e)
    if largestExponent < e then .infinite negative else .finite negative m e

/-- The number of decimal digits of a number. -/
def digitCount (n : Nat) : Nat := (Nat.toDigits 10 n).length

/-- The number nearest to `digits * 10 ^ power`, or to its negative. -/
def Double.ofDecimal (negative : Bool) (digits : Nat) (power : Int) : Double :=
  if digits = 0 then .finite negative 0 leastExponent
  else if 320 < digitCount digits + power then .infinite negative
  else if digitCount digits + power < -340 then .finite negative 0 leastExponent
  else if 0 ≤ power then .ofRatio negative (digits * Nat.pow 10 power.toNat) 1
  else .ofRatio negative digits (Nat.pow 10 (-power).toNat)

/-- The part of a finite number before the point. -/
def truncate (negative : Bool) (mantissa : Nat) (exponent : Int) : Int :=
  let whole := if 0 ≤ exponent then mantissa * Nat.pow 2 exponent.toNat
    else mantissa / Nat.pow 2 (-exponent).toNat
  if negative then -(whole : Int) else whole

end TreeShell.Decimal
