/-
  Help texts: a summary, and possibly a section that lists the accepted forms of a command.

  * `summary` is the first line that is not blank;
  * `usageLines?` are the lines of the usage section.
-/
import NestedShell.Text.Cut

namespace NestedShell.Usage

/-- The first line of a help text that is not blank, without the blanks around it. -/
def summary (help : String) : String :=
  (((Text.lines help).map Text.trim).find? (· != "")).getD ""

/-- What follows the heading of a usage section on its line, if the line is one.  Case does not
    matter in the heading. -/
def headingRest? (line : String) : Option String :=
  if Text.lowerAscii (String.ofList (line.toList.take 6)) = "usage:" then
    some (Text.trim (String.ofList (line.toList.drop 6)))
  else none

/-- Whether a line starts with a blank. -/
def isIndented (line : String) : Bool :=
  match line.toList with
  | c :: _ => Text.isBlank c
  | [] => false

/-- The forms among the lines after a heading.  Blank lines in front of the first form are skipped;
    once there is a form, a blank line or a line that is not indented ends the section. -/
def formsAfter : Bool → List String → List String
  | _, [] => []
  | found, line :: rest =>
    if Text.trim line = "" then if found then [] else formsAfter found rest
    else if found && !isIndented line then []
    else Text.trim line :: formsAfter true rest

/-- The lines of the usage section of a help text, if there is one. -/
def usageLinesOf? : List String → Option (List String)
  | [] => none
  | line :: rest =>
    match headingRest? (Text.trim line) with
    | some inline =>
      some (if inline = "" then formsAfter false rest else inline :: formsAfter true rest)
    | none => usageLinesOf? rest

/-- The lines of the usage section of a help text, if there is one. -/
def usageLines? (help : String) : Option (List String) :=
  usageLinesOf? (Text.lines help)

end NestedShell.Usage
