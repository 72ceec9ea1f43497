import TreeShell.Text.Cut

/-!
# Locations on the host

Where a file of the host is: a list of names, from the working directory or from the root. Empty
names and single dots are dropped as soon as a location is read; two dots are kept, since what they
mean is known only on the disk. Two slashes in front, and no third, are kept as they are.
-/

namespace TreeShell

/-- Where the names of a location start. -/
inductive Anchor where
  /-- At the working directory. -/
  | here
  /-- At the root, written with one slash. -/
  | root
  /-- At the root, written with two slashes. -/
  | doubleRoot
  deriving DecidableEq, Repr

/-- A place on the host. -/
structure Location where
  anchor : Anchor
  parts : List String
  deriving DecidableEq, Repr

namespace Location

/-- The anchor of a written location. -/
def anchorOf : List Char → Anchor
  | '/' :: '/' :: '/' :: _ => .root
  | '/' :: '/' :: _ => .doubleRoot
  | '/' :: _ => .root
  | _ => .here

/-- The location that is written as `s`. -/
def ofString (s : String) : Location :=
  ⟨anchorOf s.toList,
    ((Text.splitOn '/' s.toList).map String.ofList).filter fun part => part ≠ "" ∧ part ≠ "."⟩

/-- The location as it is written; the working directory is a dot. -/
def text (l : Location) : String :=
  match l.anchor, l.parts with
  | .here, [] => "."
  | .here, parts => Text.join "/" parts
  | .root, parts => "/" ++ Text.join "/" parts
  | .doubleRoot, parts => "//" ++ Text.join "/" parts

/-- The location one name up; that of an anchor is the anchor itself. -/
def parent (l : Location) : Location := ⟨l.anchor, l.parts.dropLast⟩

/-- Whether a name holds a null character. -/
def isNullName (name : String) : Bool := name.toList.contains '\x00'

/-- Whether one of the names holds a null character. -/
def holdsNull (l : Location) : Bool := l.parts.any isNullName

/-- Why a tilde gives no home directory. -/
inductive HomeError where
  /-- It names another user. -/
  | otherUser
  /-- It names a user whom nobody can be: the name holds a null character. -/
  | nullInName
  deriving DecidableEq, Repr

/-- What is said of a tilde that gives no home directory. -/
def HomeError.message : HomeError → String
  | .otherUser => "Could not determine home directory."
  | .nullInName => "embedded null byte"

/-- The location with a leading tilde taken for the home directory. -/
def expand (home : String) (l : Location) : Except HomeError Location :=
  match l.anchor, l.parts with
  | .here, part :: rest =>
    if part = "~" then .ok ⟨(ofString home).anchor, (ofString home).parts ++ rest⟩
    else if Text.hasStart part "~" then
      .error (if isNullName part then .nullInName else .otherUser)
    else .ok l
  | _, _ => .ok l

end Location

end TreeShell
