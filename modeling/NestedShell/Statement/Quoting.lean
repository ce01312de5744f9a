/-
  The characters with a meaning in a statement, and how to write a word so that it reads back.

  * `isNameChar` are the characters of an unbraced variable name;
  * `resolveEscape` is the character that a backslash and a character stand for;
  * `quote` writes a word so that it is read back as one word, unchanged.
-/
import NestedShell.Text.Blank

namespace NestedShell.Statement

/-- Whether a character may stand in an unbraced variable name: ASCII letters and digits, the
    underscore, and the question mark that names the status. -/
def isNameChar (c : Char) : Bool :=
  c.isAlphanum || c == '_' || c == '?'

/-- The character meant by a backslash before `c`. -/
def resolveEscape (c : Char) : Char :=
  if c = 'n' then '\n'
  else if c = 't' then '\t'
  else if c = 'r' then '\r'
  else if c = 'b' then '\x08'
  else c

/-- Whether a character forces quotes around the word it stands in. -/
def needsQuotes (c : Char) : Bool :=
  Text.isBlank c || c ∈ ['\'', '"', '\\', '$', '#', ';']

/-- A character between double quotes. -/
def quoteChar (c : Char) : List Char :=
  if c ∈ ['"', '\\', '$', '\''] then ['\\', c] else [c]

/-- A word, written so that it reads back. -/
def quote (word : String) : String :=
  if word.toList = [] ∨ word.toList.any needsQuotes = true then
    String.ofList ('"' :: word.toList.flatMap quoteChar ++ ['"'])
  else word

end NestedShell.Statement
