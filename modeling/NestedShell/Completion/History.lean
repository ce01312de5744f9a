/-
  The history of a line editor: the lines that were entered.

  * `History.add` keeps a line unless it is empty or equal to the one before it;
  * `History.latest?` finds the latest line with a given start.
-/
import NestedShell.Text.Cut

namespace NestedShell

/-- The lines that were entered, the latest one first. -/
structure History where
  lines : List String := []
deriving DecidableEq, Repr

namespace History

/-- The most lines that are kept. -/
def capacity : Nat := 100

/-- Adds a line, unless it is empty or was the last one.  The oldest lines are dropped. -/
def add (h : History) (line : String) : History :=
  if line = "" ∨ h.lines.head? = some line then h else ⟨(line :: h.lines).take capacity⟩

/-- The history of lines that are entered in order. -/
def ofList (lines : List String) : History := lines.foldl add {}

/-- The latest line that starts with a text. -/
def latest? (h : History) (start : String) : Option String :=
  h.lines.find? (Text.startsWith start)

end History

end NestedShell
