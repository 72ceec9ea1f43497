import TreeShell.OrderedMap
import TreeShell.Text.Order
import TreeShell.Text.Quoted

/-!
# Commands

What can be run, by name. A command is a name, a description and the program behind it; the registry
holds the commands that unit files can name.
-/

namespace TreeShell

/-- What a command does that looks into a session. -/
inductive Diagnostic where
  /-- Nothing. -/
  | idle
  /-- It reports what it was given. -/
  | probe
  /-- It exits with the code it is given. -/
  | ret
  /-- It writes to both outputs. -/
  | both
  /-- It fails in the way it is told to. -/
  | boom
  /-- It writes into its copy of the variables. -/
  | scribble
  deriving DecidableEq, Repr

/-- What a command does. -/
inductive Program where
  | ls
  | cat
  | cp
  | mv
  | rm
  | mkdir
  | touch
  | stat
  | cd
  | pwd
  | echo
  | whoami
  | help
  | clear
  | wc
  | grep
  | env
  | export
  | alias
  | unalias
  | history
  | dmesg
  /-- None of the program's own: a command that looks into a session. -/
  | diagnostic (d : Diagnostic)
  deriving DecidableEq, Repr, Inhabited

/-- A command. -/
structure Command where
  name : String
  description : String
  program : Program
  deriving DecidableEq, Repr, Inhabited

/-- A command in words. -/
def Command.describe (c : Command) : String :=
  "Command(name=" ++ Text.quoted c.name ++ ", description=" ++ Text.quoted c.description ++ ")"

/-- Commands by name. -/
structure Registry where
  commands : OrderedMap String Command
  deriving Inhabited

namespace Registry

/-- No commands. -/
def empty : Registry := ⟨∅⟩

/-- Put in a command, in place of one with the same name. -/
def add (r : Registry) (c : Command) : Registry := ⟨r.commands.set c.name c⟩

/-- Put in the commands of another registry. -/
def update (r other : Registry) : Registry := ⟨r.commands.setAll other.commands.entries⟩

/-- The command with a name. -/
def get? (r : Registry) (name : String) : Option Command := r.commands.get? name

/-- The names of the commands, in ascending order. -/
def names (r : Registry) : List String := Text.sorted r.commands.keys

/-- The commands in the order of their names. -/
def toList (r : Registry) : List Command := r.names.filterMap r.get?

/-- The registry of a list of commands. -/
def ofList (l : List Command) : Registry := l.foldl add empty

end Registry

/-- The commands that every session has. -/
def builtIns : Registry :=
  .ofList [
    ⟨"ls", "List directory contents", .ls⟩,
    ⟨"cat", "Concatenate files and print on the standard output", .cat⟩,
    ⟨"cp", "Copy files", .cp⟩,
    ⟨"mv", "Move or rename files", .mv⟩,
    ⟨"rm", "Remove files or directories", .rm⟩,
    ⟨"mkdir", "Make directories", .mkdir⟩,
    ⟨"touch", "Create empty files or update their timestamps", .touch⟩,
    ⟨"stat", "Display file or directory metadata", .stat⟩,
    ⟨"cd", "Change the working directory", .cd⟩,
    ⟨"pwd", "Print the working directory", .pwd⟩,
    ⟨"echo", "Display a line of text", .echo⟩,
    ⟨"whoami", "Print the current user name", .whoami⟩,
    ⟨"help", "List available commands", .help⟩,
    ⟨"clear", "Clear the terminal screen", .clear⟩,
    ⟨"wc", "Count lines, words, and characters", .wc⟩,
    ⟨"grep", "Print lines that contain a pattern", .grep⟩,
    ⟨"env", "Print the environment", .env⟩,
    ⟨"export", "Set environment variables", .export⟩,
    ⟨"alias", "Define or list command aliases", .alias⟩,
    ⟨"unalias", "Remove command aliases", .unalias⟩,
    ⟨"history", "Show command history", .history⟩,
    ⟨"dmesg", "Print the shell log", .dmesg⟩]

end TreeShell
