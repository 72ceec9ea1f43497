import TreeShell.Line.Quote
import TreeShell.Text.Blank

/-!
# Pipelines

A line is cut into its stages at the bars outside quotes; blank stages are dropped.
-/

namespace TreeShell.Line

/-- The pieces of a text between the bars outside quotes; always at least one piece. -/
def pieces : (open? : Option Char) → List Char → List (List Char)
  | _, [] => [[]]
  | none, '|' :: cs => [] :: pieces none cs
  | open?, c :: cs =>
    match pieces (quoteAfter open? c) cs with
    | [] => [[c]]
    | piece :: rest => (c :: piece) :: rest

/-- The stages of a line, each without the blanks around it. -/
def stages (line : String) : List String :=
  (((pieces none line.toList).map Text.trim).filter fun cs => !cs.isEmpty).map String.ofList

end TreeShell.Line
