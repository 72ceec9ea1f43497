import TreeShell.Text.LetterCase

/-!
# The journal

What the program notes about itself: entries with a level, a source and a time. The journal keeps
the latest entries, at most as many as its capacity; without one it keeps them all.
-/

namespace TreeShell

/-- How serious an entry is. -/
inductive Level where
  | debug
  | info
  | warning
  | error
  deriving DecidableEq, Repr

namespace Level

/-- The levels from the mildest to the gravest. -/
def all : List Level := [.debug, .info, .warning, .error]

/-- The place of a level among the levels. -/
def rank : Level → Nat
  | .debug => 0
  | .info => 1
  | .warning => 2
  | .error => 3

/-- The name of a level. -/
def name : Level → String
  | .debug => "DEBUG"
  | .info => "INFO"
  | .warning => "WARNING"
  | .error => "ERROR"

/-- The level with a name, in capital or small letters. -/
def ofName? (s : String) : Option Level :=
  all.find? fun level => level.name.toList == Text.capitals s.toList

end Level

/-- What is said of a name that no level has. -/
def unknownLevel (name : String) : String := "unknown level '" ++ name ++ "'"

/-- The parts of the program that write to the journal. -/
inductive Source where
  | boot
  | fs
  | loader
  | shell
  deriving DecidableEq, Repr

/-- The name of a source. -/
def Source.name : Source → String
  | .boot => "boot"
  | .fs => "fs"
  | .loader => "loader"
  | .shell => "shell"

/-- One note of the journal. -/
structure Entry where
  level : Level
  message : String
  source : String
  /-- When it was written, in milliseconds. -/
  timestamp : Int
  deriving DecidableEq, Repr

/-- The entry on one line. -/
def Entry.text (e : Entry) : String := "[" ++ e.level.name ++ "] " ++ e.source ++ ": " ++ e.message

/-- The latest entries, the oldest first. -/
structure Journal where
  /-- How many entries are kept at most; all, if there is no such number. -/
  capacity : Option Nat
  entries : List Entry
  deriving DecidableEq, Repr, Inhabited

namespace Journal

/-- The capacity of the usual journal. -/
def defaultCapacity : Nat := 1000

/-- Why a number is no capacity. -/
inductive CapacityError where
  /-- It is below zero. -/
  | negative
  /-- It has no place in a word. -/
  | tooLarge
  deriving DecidableEq, Repr

/-- What is said of a number that is no capacity. -/
def CapacityError.message : CapacityError → String
  | .negative => "maxlen must be non-negative"
  | .tooLarge => "Python int too large to convert to C ssize_t"

/-- The numbers on either side of zero that have a place in a word. -/
def wordLimit : Int := 9223372036854775808

/-- A journal without entries. -/
def empty (capacity : Option Nat) : Journal := ⟨capacity, []⟩

/-- The journal without entries that a session starts with. -/
def usual : Journal := empty (some defaultCapacity)

/-- A journal without entries, with a number as its capacity. -/
def ofCapacity (n : Int) : Except CapacityError Journal :=
  if n < -wordLimit ∨ wordLimit ≤ n then .error .tooLarge
  else if n < 0 then .error .negative
  else .ok (empty (some n.toNat))

/-- Add an entry; the oldest gives way when there are too many. -/
def push (j : Journal) (e : Entry) : Journal :=
  let entries := j.entries ++ [e]
  { j with entries := entries.drop (j.capacity.elim 0 fun most => entries.length - most) }

/-- Note something at a time. -/
def note (j : Journal) (now : Int) (level : Level) (source : Source) (message : String) : Journal :=
  j.push ⟨level, message, source.name, now⟩

/-- The entries at or above a level and of a source, where these are given. -/
def filter (j : Journal) (least : Option Level) (source : Option String) : List Entry :=
  j.entries.filter fun e =>
    least.all (fun level => level.rank ≤ e.level.rank) && source.all (fun s => e.source == s)

/-- The journal without its entries. -/
def clear (j : Journal) : Journal := { j with entries := [] }

end Journal

end TreeShell
