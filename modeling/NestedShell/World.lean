/-
  The world outside the shell, as far as the command sets of this library change it.
-/

namespace NestedShell

/-- What command sets leave behind outside the shell. -/
structure World where
  /-- the lines that they wrote into a journal -/
  journal : List String := []
  /-- the time that they asked to wait for, in nanoseconds -/
  waiting : Nat := 0
deriving DecidableEq, Repr

/-- Adds a line to the journal. -/
def World.write (w : World) (line : String) : World := { w with journal := w.journal ++ [line] }

/-- Adds to the time that was waited. -/
def World.wait (w : World) (nanoseconds : Nat) : World :=
  { w with waiting := w.waiting + nanoseconds }

end NestedShell
