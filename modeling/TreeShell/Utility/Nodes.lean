import TreeShell.Session.Action

/-!
# Commands on nodes

Listing, copying, moving, making and removing files and directories. A command goes on after an
operand that is refused, and fails in the end.
-/

namespace TreeShell.Utility

open TreeShell.Action

/-- The date of a time in a listing. -/
def shortTime (ms : Int) : Except Fault String :=
  ((Calendar.momentOf ms).map Calendar.Moment.short).mapError .time

/-- The date of a time in full. -/
def longTime (ms : Int) : Except Fault String :=
  ((Calendar.momentOf ms).map Calendar.Moment.long).mapError .time

/-- The line of a long listing for a node. -/
def longLine (info : Stat) (name owner : String) : Except Fault String := do
  let date ← shortTime info.attributes.modifiedAt
  return info.attributes.permissions.plain ++ " 1 " ++ owner ++ " " ++ owner ++ " " ++
    Text.padStart 8 (toString info.size) ++ " " ++ date ++ " " ++ name ++
    (if info.isDirectory then "/" else "")

/-- The line of a listing for an operand that is a file. -/
def fileLine (ctx : Context) (info : Stat) (name owner : String) : Except Fault String :=
  if ctx.flag ["l"] then longLine info name owner else .ok name

/-- The line of a listing for an entry of a directory. -/
def entryLine (ctx : Context) (info : Stat) (name owner : String) : Except Fault String :=
  if ctx.flag ["l"] then longLine info name owner
  else .ok (if info.isDirectory then name ++ "/" else name)

/-- The names that a listing shows: with all, the directory itself and the one above come first;
else those that begin with a dot are left out. -/
def shownNames (ctx : Context) (names : List String) : List String :=
  if ctx.flag ["a"] then "." :: ".." :: names
  else names.filter fun name => !Text.hasStart name "."

/-- List the entries of a directory. -/
def listDirectory (ctx : Context) (owner path : String) : Action Unit := do
  let names ← ask fun t => t.childNames path ctx.cwd
  let directory := Path.format (Path.resolve path ctx.cwd)
  for name in shownNames ctx names do
    let info ← ask fun t => t.stat name directory
    putLine ctx (← entryLine ctx info name owner)

/-- List one operand, the `index`th of several or the only one. -/
def listOperand (ctx : Context) (owner : String) (several : Bool) (index : Nat) (path : String) :
    Action Bool := do
  match ← attempt (ask fun t => t.stat path ctx.cwd) with
  | .error _ =>
    complain ctx ("ls: cannot access '" ++ path ++ "': No such file or directory")
    return false
  | .ok info =>
    if info.isDirectory then
      if several then
        if index ≠ 0 then put ctx "\n"
        put ctx (path ++ ":\n")
      listDirectory ctx owner path
    else putLine ctx (← fileLine ctx info path owner)
    return true

/-- List files, and directories with their entries. -/
def ls (ctx : Context) : Action Int :=
  let operands := if ctx.arguments.isEmpty then [ctx.cwd] else ctx.arguments
  let owner := ctx.env.getD "USER" "user"
  each (fun (path, index) => listOperand ctx owner (1 < operands.length) index path)
    operands.zipIdx

/-- Where a source lands that is copied to a destination, or into it if it is a directory. -/
def landingPath (destination source : String) (intoDirectory : Bool) : String :=
  if intoDirectory then
    Text.withoutEndSlashes destination ++ "/" ++ (Path.resolve source "/").getLast?.getD ""
  else destination

/-- The sources and the destination among operands, which have to be two at least. -/
def sourcesAndDestination? (operands : List String) : Option (List String × String) :=
  match operands.getLast? with
  | some destination => if operands.length < 2 then none else some (operands.dropLast, destination)
  | none => none

/-- Do something with the sources and the destination; of several sources the destination has to be
a directory. -/
def withDestination (ctx : Context) (name : String)
    (action : Bool → String → String → Action Unit) : Action Int := do
  if ctx.flag ["help"] then
    put ctx ("Usage: " ++ name ++ " SOURCE DEST\n   or: " ++ name ++ " SOURCE... DIRECTORY\n")
    return success
  match sourcesAndDestination? ctx.arguments with
  | none =>
    complain ctx (name ++ ": missing file operand")
    return failure
  | some (sources, destination) =>
    let intoDirectory := (← session).volume.tree.isDirectory destination ctx.cwd
    if 1 < sources.length && !intoDirectory then
      complain ctx (name ++ ": target '" ++ destination ++ "' is not a directory")
      return failure
    each (fun source =>
      orComplain ctx (fun e => name ++ ": " ++ e.message)
        (action intoDirectory source destination)) sources

/-- Copy files. -/
def cp (ctx : Context) : Action Int :=
  withDestination ctx "cp" fun intoDirectory source destination => do
    let content ← ask fun t => t.content source ctx.cwd
    edit ctx.cwd (.write (landingPath destination source intoDirectory) content false)

/-- Move or rename files and directories. -/
def mv (ctx : Context) : Action Int :=
  withDestination ctx "mv" fun _ source destination => edit ctx.cwd (.move source destination)

/-- What is shown of the use of `rm`. -/
def rmUsage : String :=
  "Usage: rm [-rf] FILE...\n" ++
    "  -r, -R    remove directories and their contents recursively\n" ++
    "  -f        ignore nonexistent files\n"

/-- The operands that are never removed. -/
def protectedOperands : List String := ["/", ".", ".."]

/-- Remove one operand. -/
def removeOperand (ctx : Context) (path : String) : Action Bool := do
  if protectedOperands.contains path then
    complain ctx ("rm: cannot remove '" ++ path ++ "': Is a special file")
    return false
  match ← attempt (edit ctx.cwd (.delete path (ctx.flag ["r", "R", "recursive"]))) with
  | .ok _ => return true
  | .error e =>
    if e.isAbsence && ctx.flag ["f", "force"] then return true
    complain ctx ("rm: " ++ e.message)
    return false

/-- Remove files and directories. -/
def rm (ctx : Context) : Action Int :=
  if ctx.flag ["help"] || ctx.arguments.isEmpty then do
    put ctx rmUsage
    return success
  else each (removeOperand ctx) ctx.arguments

/-- What a refusal says after its last colon. -/
def reason (e : PathError) : String :=
  match Text.afterLast? [':', ' '] e.message.toList with
  | some cs => String.ofList cs
  | none => e.message

/-- Do something for each operand, of which there has to be one; refusals are reported with their
reasons. -/
def eachOperand (ctx : Context) (missing : String) (words : String → String)
    (action : String → Action Unit) : Action Int :=
  if ctx.arguments.isEmpty then do
    complain ctx missing
    return failure
  else
    each (fun path => orComplain ctx (fun e => words path ++ ": " ++ reason e) (action path))
      ctx.arguments

/-- Make directories. -/
def mkdir (ctx : Context) : Action Int :=
  eachOperand ctx "mkdir: missing operand"
    (fun path => "mkdir: cannot create directory '" ++ path ++ "'")
    fun path =>
      edit ctx.cwd
        (if ctx.flag ["p", "parents"] then .makeDirectories path else .createDirectory path)

/-- Make empty files, or note the time on what is there. -/
def touch (ctx : Context) : Action Int :=
  eachOperand ctx "touch: missing file operand" (fun path => "touch: cannot touch '" ++ path ++ "'")
    fun path => edit ctx.cwd (.touch path)

/-- What is told about a node. -/
def statText (info : Stat) : Except Fault String := do
  let made ← longTime info.attributes.createdAt
  let changed ← longTime info.attributes.modifiedAt
  return "  File: " ++ info.name ++ "\n" ++
    "  Type: " ++ (if info.isDirectory then "directory" else "file") ++ "\n" ++
    "  Size: " ++ toString info.size ++ "\n" ++
    "Access: " ++ info.attributes.permissions.plain ++ "\n" ++
    " Birth: " ++ made ++ "\n" ++
    "Modify: " ++ changed ++ "\n"

/-- Tell about one node. -/
def statOperand (ctx : Context) (path : String) : Action Bool := do
  match ← attempt (ask fun t => t.stat path ctx.cwd) with
  | .error e =>
    complain ctx ("stat: cannot stat '" ++ path ++ "': " ++ reason e)
    return false
  | .ok info =>
    put ctx (← statText info)
    return true

/-- Tell about nodes. -/
def stat (ctx : Context) : Action Int :=
  if ctx.arguments.isEmpty then do
    complain ctx "stat: missing operand"
    return failure
  else each (statOperand ctx) ctx.arguments

end TreeShell.Utility
