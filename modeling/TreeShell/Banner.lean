import TreeShell.Text.Cut

/-!
# The banner

What the terminal shows before its first prompt: the name of the program and the boot log.
-/

namespace TreeShell.Banner

/-- The version of the program. -/
def version : String := "0.1.0"

/-- The line above and below the name. -/
def border : String := String.ofList (List.replicate 38 '=')

/-- The banner over a boot log. -/
def text (log : List String) : String :=
  "\n  " ++ border ++ "\n              py-sh v" ++ version ++ "\n  " ++ border ++ "\n\n" ++
    Text.join "\n" (log.map ("  " ++ ·)) ++ "\nType 'help' for commands, 'exit' to quit.\n"

end TreeShell.Banner
