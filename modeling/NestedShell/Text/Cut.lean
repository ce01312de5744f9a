/-
  Cutting texts: at a character, at line ends, after a leading text.

  * `cutAt c s` splits `s` at the first `c`;
  * `afterLast c s` is what follows the last `c`;
  * `lines s` are the lines of `s`, each ended by a newline or a carriage return and a newline;
  * `strip? p s` is `s` without the leading text `p`.
-/
import NestedShell.Text.Blank

namespace NestedShell.Text

/-- What stands before and after the first `c`, if there is one. -/
def cutAt (c : Char) (s : String) : Option (String × String) :=
  match s.toList.span (· != c) with
  | (_, []) => none
  | (before, _ :: after) => some (String.ofList before, String.ofList after)

/-- What follows the last `c`, or everything when there is none. -/
def afterLast (c : Char) (s : String) : String :=
  String.ofList (s.toList.reverse.takeWhile (· != c)).reverse

/-- Whether a text starts with another one. -/
def startsWith (p s : String) : Bool :=
  p.toList.isPrefixOf s.toList

/-- Whether a text ends with a character. -/
def endsWith (c : Char) (s : String) : Bool :=
  s.toList.getLast? == some c

/-- What remains of `s` after the leading text `p`, if it starts with it. -/
def strip? (p s : String) : Option String :=
  if startsWith p s then some (String.ofList (s.toList.drop p.toList.length)) else none

/-- A line without the carriage return it ends with. -/
def chopReturn (l : List Char) : List Char :=
  if l.getLast? = some '\r' then l.dropLast else l

/-- Lines out of the pieces between newlines: the last piece is a line only when it is not empty,
    and it was not ended, so it keeps its carriage return. -/
def linesOfPieces : List (List Char) → List String
  | [] => []
  | [p] => if p.isEmpty then [] else [String.ofList p]
  | p :: ps => String.ofList (chopReturn p) :: linesOfPieces ps

/-- The lines of a text, without their ends. -/
def lines (s : String) : List String :=
  linesOfPieces (pieces (· == '\n') s.toList)

/-- The text with every `c` written as `t`. -/
def replaceChar (c : Char) (t : String) (s : String) : String :=
  String.ofList (s.toList.flatMap fun d => if d = c then t.toList else [d])

/-- The text in lower case as far as ASCII letters go. -/
def lowerAscii (s : String) : String :=
  String.ofList (s.toList.map Char.toLower)

end NestedShell.Text
