import TreeShell.Tree.Content

/-!
# Refusals of the tree

Why an operation on a path is refused, and what is said about it. A path is shown as it was given.
-/

namespace TreeShell

/-- Why an operation on a path is refused. -/
inductive PathError where
  /-- There is nothing at the path. -/
  | notFound (path : String)
  /-- There is no directory for the last segment of the path. -/
  | parentMissing (path : String)
  /-- A directory stands where a file is needed. -/
  | isDirectory (path : String)
  /-- A file stands where a directory is needed. -/
  | notDirectory (path : String)
  /-- Something is there already. -/
  | taken (path : String)
  /-- The directory has entries. -/
  | notEmpty (path : String)
  /-- The root is not taken away. -/
  | removeRoot
  /-- The root is not moved. -/
  | moveRoot
  /-- A move would put something below itself. -/
  | intoItself (source : String)
  /-- A directory would take the place of a file. -/
  | overFile (target source : String)
  /-- What the file holds does not allow it. -/
  | content (error : ContentError)
  deriving DecidableEq, Repr

namespace PathError

/-- What is said about a refusal. -/
def message : PathError → String
  | .notFound path => path ++ ": No such file or directory"
  | .parentMissing path => path ++ ": Parent directory not found or is not a directory"
  | .isDirectory path => path ++ ": Is a directory"
  | .notDirectory path => path ++ ": Not a directory"
  | .taken path => path ++ ": File exists"
  | .notEmpty path => path ++ ": Directory not empty. Use -r option."
  | .removeRoot => "cannot remove root directory '/'"
  | .moveRoot => "cannot move root directory '/'"
  | .intoItself source => "cannot move '" ++ source ++ "' to a subdirectory of itself"
  | .overFile target source =>
    "cannot overwrite non-directory '" ++ target ++ "' with directory '" ++ source ++ "'"
  | .content error => error.message

/-- Whether something was missing. -/
def isAbsence : PathError → Bool
  | .notFound _ | .parentMissing _ => true
  | _ => false

end PathError

end TreeShell
