/-
  Removing the indentation that the lines of a text have in common.
-/
import NestedShell.Text.Cut
import NestedShell.Text.Offset

namespace NestedShell.Text

/-- The number of bytes of the blanks that a line starts with. -/
def indentation (line : String) : Nat :=
  byteLength (line.toList.takeWhile isBlank)

/-- The least indentation among the lines that are not blank, zero if there are none. -/
def commonIndentation (lines : List String) : Nat :=
  (((lines.filter fun l => trim l != "").map indentation).min?).getD 0

/-- A line without its first `n` bytes; when they do not end at a boundary, without the blanks that
    it starts with. -/
def unindent (n : Nat) (line : String) : String :=
  match dropBytes? n line.toList with
  | some cs => String.ofList cs
  | none => trimStart line

/-- A text without the indentation that its lines have in common, and without blanks at its end. -/
def dedent (s : String) : String :=
  let ls := lines s
  let n := commonIndentation ls
  trimEnd (String.join (ls.map fun l => unindent n l ++ "\n"))

end NestedShell.Text
