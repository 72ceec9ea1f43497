import TreeShell.Text.Cut

/-!
# Paths

A path is read against a working directory and becomes the segments below the root. The empty part
and the single dot stay where they are, two dots go up one segment and stay at the root. The working
directory itself is cut at its slashes only.
-/

namespace TreeShell

/-- A place in the tree: the names on the way from the root. -/
abbrev Segments := List String

namespace Path

/-- The parts of a path between its slashes. -/
def parts (path : String) : List String := (Text.splitOn '/' path.toList).map String.ofList

/-- Where one part of a path leads. -/
def step (place : Segments) (part : String) : Segments :=
  if part = "" ∨ part = "." then place
  else if part = ".." then place.dropLast
  else place ++ [part]

/-- The place that a working directory stands for. -/
def base (cwd : String) : Segments := (parts cwd).filter (· ≠ "")

/-- The place that a path leads to; a path that begins with a slash starts at the root. -/
def resolve (path cwd : String) : Segments :=
  (parts path).foldl step (if Text.hasStart path "/" then [] else base cwd)

/-- The path from the root to a place. -/
def format (place : Segments) : String := "/" ++ Text.join "/" place

/-- The name of a place: its last segment, and a slash for the root. -/
def nameOf (place : Segments) : String := place.getLast?.getD "/"

end Path

end TreeShell
