/-
  Splitting a whole text into statements.

  * `statements?` are the statements of a text that have words;
  * `oneStatement?` is the only statement of a text, `words?` the same without variables.
-/
import NestedShell.Statement.Reader

namespace NestedShell.Statement

/-- The statements of a text.  The end of the text ends the last statement, so nothing may be left
    open there. -/
def statements? (text : String) (vars : Lookup) : Except Fault (List Words) :=
  match Reader.feed vars (text.push '\n') {} with
  | (.ok (_, .continuation), r) =>
    .error ⟨.unfinished r.openConstruct, some text.utf8ByteSize⟩
  | (.ok (statements, .complete), _) => .ok statements
  | (.error fault, _) => .error fault

/-- The words of a text that holds at most one statement. -/
def oneStatement? (text : String) (vars : Lookup) : Except Fault Words :=
  match statements? text vars with
  | .ok [] => .ok []
  | .ok [words] => .ok words
  | .ok statements => .error ⟨.severalStatements statements.length, none⟩
  | .error fault => .error fault

/-- The words of a text that holds at most one statement, in which no variable is set. -/
def words? (text : String) : Except Fault Words :=
  oneStatement? text noVariables

end NestedShell.Statement
