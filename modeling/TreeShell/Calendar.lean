import TreeShell.Decimal.Double

/-!
# Calendar times

The day and the time of day of a number of milliseconds since the beginning of 1970, in universal
time. The milliseconds are first taken to seconds with fifty-three binary places; only years with
one to four digits can be shown, and the day before has to lie in them too.
-/

namespace TreeShell.Calendar

/-- Why a time has no date to show. -/
inductive TimeError where
  /-- The number of seconds is too large to be held. -/
  | tooLarge
  /-- The number of seconds is too large for the clock. -/
  | beyondClock
  /-- The year is too large to be counted. -/
  | beyondCount
  /-- The year has no place in the calendar. -/
  | badYear (year : Int)
  deriving DecidableEq, Repr

/-- What is said of a time without a date. -/
def TimeError.message : TimeError → String
  | .tooLarge => "integer division result too large for a float"
  | .beyondClock => "timestamp out of range for platform time_t"
  | .beyondCount => "[Errno 75] Value too large for defined data type"
  | .badYear year => "year " ++ toString year ++ " is out of range"

/-- A day and a time of day. -/
structure Moment where
  /-- The year; the year before year 1 is year 0. -/
  year : Int
  /-- The month, from 1. -/
  month : Nat
  /-- The day of the month, from 1. -/
  day : Nat
  hour : Nat
  minute : Nat
  second : Nat
  deriving DecidableEq, Repr

/-- The seconds in a day. -/
def daySeconds : Int := 86400

/-- The year, month and day that are `days` days after the first day of 1970. Years are counted from
March, four hundred at a time. -/
def dateOfDays (days : Int) : Int × Nat × Nat :=
  let shifted := days + 719468
  let era := shifted.fdiv 146097
  let dayOfEra := (shifted - era * 146097).toNat
  let yearOfEra := (dayOfEra - dayOfEra / 1460 + dayOfEra / 36524 - dayOfEra / 146096) / 365
  let dayOfYear := dayOfEra - (365 * yearOfEra + yearOfEra / 4 - yearOfEra / 100)
  let fromMarch := (5 * dayOfYear + 2) / 153
  let day := dayOfYear - (153 * fromMarch + 2) / 5 + 1
  let month := if fromMarch < 10 then fromMarch + 3 else fromMarch - 9
  ((yearOfEra : Int) + era * 400 + (if month ≤ 2 then 1 else 0), month, day)

/-- The moment `seconds` seconds after the beginning of 1970. -/
def momentOfSeconds (seconds : Int) : Moment :=
  let days := seconds.fdiv daySeconds
  let rest := (seconds - days * daySeconds).toNat
  let (year, month, day) := dateOfDays days
  { year, month, day, hour := rest / 3600, minute := rest / 60 % 60, second := rest % 60 }

/-- The most seconds on either side of the beginning of 1970 that the clock can hold. -/
def clockLimit : Int := 9223372036854775808

/-- The years on either side of 1900 that can be counted. -/
def yearLimit : Int := 2147483648

/-- The number of values that a counted year has. -/
def wordSize : Nat := 4294967296

/-- The whole seconds of a number of milliseconds, counted down from a number with fifty-three
binary places. -/
def secondsOf (ms : Int) : Except TimeError Int :=
  match Decimal.Double.ofRatio (ms < 0) ms.natAbs 1000 with
  | .finite negative m e =>
    let signed : Int := if negative then -(m : Int) else m
    let seconds : Int :=
      if 0 ≤ e then signed * Nat.pow 2 e.toNat else signed.fdiv (Nat.pow 2 (-e).toNat)
    if -clockLimit ≤ seconds ∧ seconds ≤ clockLimit then .ok seconds else .error .beyondClock
  | _ => .error .tooLarge

/-- Whether a year has no place in the calendar. -/
def isBadYear (year : Int) : Bool := year < 1 || 9999 < year

/-- The moment `ms` milliseconds after the beginning of 1970. -/
def momentOf (ms : Int) : Except TimeError Moment := do
  let seconds ← secondsOf ms
  let moment := momentOfSeconds seconds
  if moment.year - 1900 < -yearLimit ∨ yearLimit ≤ moment.year - 1900 then
    throw .beyondCount
  if isBadYear moment.year then throw (.badYear (moment.year.bmod wordSize))
  let dayBefore := momentOfSeconds (seconds - daySeconds)
  if isBadYear dayBefore.year then throw (.badYear dayBefore.year)
  return moment

/-- The short names of the months. -/
def monthNames : List String :=
  ["Jan", "Feb", "Mar", "Apr", "May", "Jun", "Jul", "Aug", "Sep", "Oct", "Nov", "Dec"]

/-- A number with at least two digits. -/
def twoDigits (n : Nat) : String := (if n < 10 then "0" else "") ++ toString n

/-- The month, the day and the time of day to the minute. -/
def Moment.short (m : Moment) : String :=
  monthNames.getD (m.month - 1) "" ++ " " ++ (if m.day < 10 then " " else "") ++ toString m.day ++
    " " ++ twoDigits m.hour ++ ":" ++ twoDigits m.minute

/-- The date and the time of day to the second. -/
def Moment.long (m : Moment) : String :=
  toString m.year ++ "-" ++ twoDigits m.month ++ "-" ++ twoDigits m.day ++ " " ++
    twoDigits m.hour ++ ":" ++ twoDigits m.minute ++ ":" ++ twoDigits m.second

end TreeShell.Calendar
