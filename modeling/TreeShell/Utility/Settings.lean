import TreeShell.Session.Action

/-!
# Commands on the session

The working directory, the variables, the aliases, the history, the journal and the display.
-/

namespace TreeShell.Utility

open TreeShell.Action

/-- Change the working directory, to the home directory if none is given. -/
def cd (ctx : Context) : Action Int := do
  let path := ctx.arguments.headD "~"
  let (result, s) := (← session).changeDirectory path
  match result with
  | .ok _ =>
    change fun _ => s
    return success
  | .error (.path e) =>
    complain ctx ("cd: " ++ e.message)
    return failure
  | .error (.outside ..) =>
    complain ctx ("cd: permission denied: " ++ path ++ " (restricted to home directory)")
    return failure

/-- Print the working directory. -/
def pwd (ctx : Context) : Action Int := do
  putLine ctx ctx.cwd
  return success

/-- Print the user's name. -/
def whoami (ctx : Context) : Action Int := do
  putLine ctx (ctx.env.getD "USER" "")
  return success

/-- List the commands that can be run, with what they do. -/
def help (ctx : Context) : Action Int := do
  put ctx "Available commands:\n\n"
  for name in (← session).available do
    let s ← session
    let (result, volume) := s.volume.loadCommand s.registry name (ctx.env.getD "PATH" "")
    change fun s => { s with volume }
    match result with
    | .ok c => putLine ctx ("  " ++ Text.padEnd 15 name ++ " " ++ c.description)
    | .error (.content e) => throw (.content e)
    | .error _ => continue
  put ctx "\nType 'help' to see this list again.\n"
  return success

/-- Have the display cleared. -/
def clear (_ : Context) : Action Int := do
  change fun s => { s with clears := s.clears + 1 }
  return success

/-- Print the variables in the order of their names. -/
def env (ctx : Context) : Action Int := do
  for (name, value) in Text.sortedByName ctx.env.entries do
    putLine ctx (name ++ "=" ++ value)
  return success

/-- Set variables as far as the first word that sets none. -/
def exportAll (ctx : Context) : List String → Action Int
  | [] => return success
  | word :: rest =>
    match Text.assignment word with
    | (_, none) => do
      complain ctx "Usage: export KEY=VALUE"
      return failure
    | (name, some value) => do
      match (← session).env.set? name value with
      | some env =>
        change fun s => { s with env }
        exportAll ctx rest
      | none =>
        complain ctx ("export: " ++ invalidVariable name)
        return failure

/-- Set variables, or print them if none are given. -/
def exportOrList (ctx : Context) : Action Int :=
  if ctx.words.isEmpty then env ctx else exportAll ctx ctx.words

/-- Define an alias, or print all if none is given. -/
def aliasOrList (ctx : Context) : Action Int := do
  if ctx.words.isEmpty then
    for (name, expansion) in Text.sortedByName (← session).aliases.entries do
      putLine ctx (name ++ "='" ++ expansion ++ "'")
    return success
  match Text.assignment (Text.join " " ctx.words) with
  | (name, some expansion) =>
    if Text.trimmed name ≠ "" then
      change fun s => s.setAlias (Text.trimmed name) (Text.trimmed expansion)
      return success
    else
      complain ctx "Usage: alias NAME=COMMAND"
      return failure
  | (_, none) =>
    complain ctx "Usage: alias NAME=COMMAND"
    return failure

/-- Remove aliases. -/
def unalias (ctx : Context) : Action Int :=
  if ctx.arguments.isEmpty then do
    complain ctx "Usage: unalias NAME..."
    return failure
  else
    each (fun name => do
      let (found, s) := (← session).removeAlias name
      change fun _ => s
      unless found do complain ctx ("unalias: " ++ name ++ ": not found")
      return found) ctx.arguments

/-- Print the lines run so far, with their numbers. -/
def history (ctx : Context) : Action Int := do
  for (line, index) in (← session).history.zipIdx do
    putLine ctx (Text.padStart 5 (toString (index + 1)) ++ "  " ++ line)
  return success

/-- The level that the journal is to be printed from: none, the given one, or a complaint. -/
def leastLevel (ctx : Context) : Except String (Option Level) :=
  let named (name : String) : Except String (Option Level) :=
    match Level.ofName? name with
    | some level => .ok (some level)
    | none => .error ("dmesg: " ++ unknownLevel name)
  if ctx.flag ["l"] then
    match ctx.arguments with
    | [] => .error "Usage: dmesg [-l LEVEL]"
    | name :: _ => named name
  else
    match ctx.options.get? "level" with
    | some (.text name) => named name
    | _ => .ok none

/-- Print the journal. -/
def dmesg (ctx : Context) : Action Int := do
  match leastLevel ctx with
  | .error words =>
    complain ctx words
    return usage
  | .ok least =>
    for e in (← session).volume.journal.filter least none do
      putLine ctx e.text
    return success

end TreeShell.Utility
