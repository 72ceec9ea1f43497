import TreeShell.Session.Action
import TreeShell.Text.LetterCase

/-!
# Commands on texts

Printing, joining, counting and filtering texts, from files or from the input.
-/

namespace TreeShell.Utility

open TreeShell.Action

/-- Print the input. -/
def copyInput (ctx : Context) : Action Unit := do put ctx (← read ctx.ends.input)

/-- Print one file; a dash stands for the input. -/
def catOperand (ctx : Context) (path : String) : Action Bool :=
  if path = "-" then do
    copyInput ctx
    return true
  else
    orComplain ctx (fun e => "cat: " ++ e.message) do
      put ctx (← ask fun t => t.content path ctx.cwd).plain

/-- Print files one after another, or the input if there are none. -/
def cat (ctx : Context) : Action Int :=
  if ctx.arguments.isEmpty then do
    copyInput ctx
    return success
  else each (catOperand ctx) ctx.arguments

/-- What a backslash makes of a character after it, where it makes anything of it. -/
def escape? : Char → Option Char
  | 'n' => some '\n'
  | 't' => some '\t'
  | 'r' => some '\r'
  | '\\' => some '\\'
  | '"' => some '"'
  | '\'' => some '\''
  | _ => none

/-- A text with its backslash escapes carried out; a backslash before anything else stays, and the
character after it is passed over unless it is a line feed. -/
def unescape : List Char → List Char
  | [] => []
  | '\\' :: c :: cs =>
    match escape? c with
    | some d => d :: unescape cs
    | none => '\\' :: c :: unescape cs
  | c :: cs => c :: unescape cs

/-- Print the arguments. -/
def echo (ctx : Context) : Action Int := do
  let text := Text.join " " ctx.arguments
  let text := if ctx.flag ["e"] then String.ofList (unescape text.toList) else text
  put ctx (if ctx.flag ["n"] then text else text ++ "\n")
  return success

/-- What some files hold, with their names; `none` if one cannot be read, which is reported. -/
def contents (ctx : Context) (name : String) : List String →
    Action (Option (List (String × Content)))
  | [] => return some []
  | path :: rest => do
    match (← session).volume.tree.content path ctx.cwd with
    | .error e =>
      complain ctx (name ++ ": " ++ e.message)
      return none
    | .ok content => return (← contents ctx name rest).map ((path, content) :: ·)

/-- What some files hold, with their names, or the input under no name if there are none. -/
def inputs (ctx : Context) (name : String) (paths : List String) :
    Action (Option (List (String × Content))) :=
  if paths.isEmpty then do
    return some [("", .string (← read ctx.ends.input))]
  else contents ctx name paths

/-- How many lines, words and characters a text has: what is asked for of these, or all. -/
def counts (ctx : Context) (text : String) : List Nat :=
  let cs := text.toList
  let all := [("l", cs.count '\n'), ("w", (Text.words cs).length), ("c", cs.length)]
  let chosen := all.filter fun (flag, _) => ctx.flag [flag]
  (if chosen.isEmpty then all else chosen).map Prod.snd

/-- Count lines, words and characters. -/
def wc (ctx : Context) : Action Int := do
  match ← inputs ctx "wc" ctx.arguments with
  | none => return failure
  | some contents =>
    for (label, content) in contents do
      let text ← need content.textForCounts
      let line := Text.join " " ((counts ctx text).map toString)
      putLine ctx (if label = "" then line else line ++ " " ++ label)
    return success

/-- How lines are chosen. -/
structure LineFilter where
  pattern : String
  ignoreCase : Bool
  invert : Bool
  deriving DecidableEq, Repr

namespace LineFilter

/-- Whether a line is chosen: it holds the pattern, or does not if the choice is turned around. -/
def chooses (f : LineFilter) (line : List Char) : Bool :=
  let needle := if f.ignoreCase then Text.small f.pattern.toList else f.pattern.toList
  let haystack := if f.ignoreCase then Text.small line else line
  Text.occursIn needle haystack != f.invert

/-- The lines of a text that are chosen. -/
def select (f : LineFilter) (text : String) : List (List Char) :=
  (Text.lines text.toList).filter f.chooses

end LineFilter

/-- Print the lines that hold a pattern; it is a failure if there are none. -/
def grep (ctx : Context) : Action Int := do
  match ctx.arguments with
  | [] =>
    complain ctx "Usage: grep [-iv] PATTERN [FILE...]"
    return usage
  | pattern :: paths =>
    match ← inputs ctx "grep" paths with
    | none => return usage
    | some contents =>
      let choice : LineFilter := ⟨pattern, ctx.flag ["i"], ctx.flag ["v"]⟩
      for (label, content) in contents do
        for line in choice.select (← need (content.textFor "splitlines")) do
          let front := if 1 < contents.length then label ++ ":" else ""
          putLine ctx (front ++ String.ofList line)
      let barren := contents.all fun (_, content) => (choice.select content.plain).isEmpty
      return if barren then failure else success

end TreeShell.Utility
