/-
  Where input lines come from.

  * a `LineSource` answers each time that it is asked for a line with the next of its answers, and
    with the end of input when they are used up;
  * a `LineRequest` is what it is asked with;
  * `LineSource.ofScript` are the lines of a script.
-/
import NestedShell.Completion.WordList

namespace NestedShell

/-- The answer to a request for a line. -/
inductive LineAnswer where
  | line (text : String)
  | endOfInput
  /-- the line could not be read, for this reason -/
  | failed (message : String)
deriving DecidableEq, Repr

/-- A request for a line. -/
structure LineRequest where
  /-- whether the line continues a statement -/
  continuing : Bool
  prompt : String
  /-- what can be completed in the line -/
  snapshot : Snapshot

/-- A source of lines. -/
structure LineSource where
  answers : List LineAnswer
  /-- whether somebody types the lines -/
  interactive : Bool := false
deriving DecidableEq, Repr

namespace LineSource

/-- Lines without the newlines and carriage returns at their ends; the text after the last newline
    is a line unless it is empty. -/
def scriptLines (text : String) : List String :=
  let ps := Text.pieces (· == '\n') text.toList
  let ps := if ps.getLast? = some [] then ps.dropLast else ps
  ps.map fun p => String.ofList (Text.dropEndWhile (fun c => c == '\n' || c == '\r') p)

/-- The source that gives the lines of a script. -/
def ofScript (text : String) : LineSource where
  answers := (scriptLines text).map .line

end LineSource

end NestedShell
