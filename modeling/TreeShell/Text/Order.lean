/-!
# Ascending order

Texts in the order of their characters' codes; of equal keys the earlier entry stays first.
-/

namespace TreeShell.Text

/-- Texts in ascending order. -/
def sorted (l : List String) : List String := l.mergeSort fun a b => decide (a ≤ b)

/-- Entries in ascending order of their names. -/
def sortedByName {α : Type} (l : List (String × α)) : List (String × α) :=
  l.mergeSort fun a b => decide (a.1 ≤ b.1)

end TreeShell.Text
