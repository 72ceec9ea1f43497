/-!
# Quotes

Both quotes work alike: what stands between two of a kind is taken as it is.
-/

namespace TreeShell.Line

/-- Whether a character is a quote. -/
def isQuote (c : Char) : Bool := c == '\'' || c == '"'

/-- The quote that is open after a character, from the one that was open before it. -/
def quoteAfter (open? : Option Char) (c : Char) : Option Char :=
  match open? with
  | some q => if c = q then none else some q
  | none => if isQuote c then some c else none

end TreeShell.Line
