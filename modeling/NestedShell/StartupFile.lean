/-
  The startup file: aliases, variables and colours for the first level.

  A line is `alias name=value`, `NAME=value` or `export NAME=value`, `color.<slot>=<colour>`, or
  `alias_cycles=stop` or `alias_cycles=reject`.  Empty lines and lines that start with `#` are
  skipped, and so is, with a note, every line that is none of these.

  * `Settings` are what a startup file says;
  * `Settings.applyLine` applies one line, `Settings.read` all lines of a file.
-/
import NestedShell.AliasTable
import NestedShell.Log
import NestedShell.Statement.Split
import NestedShell.Theme

namespace NestedShell

/-- What a startup file says. -/
structure Settings where
  aliases : AliasTable := {}
  env : Environment := {}
  theme : Theme

namespace Settings

/-- The start of the key of a colour setting. -/
def colorKey : String := "color."

/-- A text without the quotes around it, single or double ones. -/
def unquote (s : String) : String :=
  match s.toList with
  | first :: rest =>
    if (first = '"' ∨ first = '\'') ∧ rest.getLast? = some first then String.ofList rest.dropLast
    else s
  | [] => s

/-- Whether a name may be given to a variable here: ASCII letters, digits and underscores, the
    first one no digit. -/
def isVariableName (name : String) : Bool :=
  match name.toList with
  | [] => false
  | c :: cs => (c.isAlpha || c == '_') && cs.all fun d => d.isAlphanum || d == '_'

/-- Sets a colour by the name of its slot. -/
def setColor (theme : Theme) (key value : String) : Except Fault Theme :=
  match Slot.ofName? key with
  | some slot => .ok (theme.set slot value)
  | none => .error ⟨.unknownColorKey key (Slot.all.map Slot.name), none⟩

/-- Applies the definition of an alias. -/
def defineAlias (s : Settings) (definition : String) : Except Fault Unit × Settings :=
  match Text.cutAt '=' definition with
  | none => (.error ⟨.aliasWithoutValue, none⟩, s)
  | some (name, value) =>
    let name := Text.trim name
    if name = "" ∨ name.toList.any Text.isBlank = true then
      (.error ⟨.invalidAliasName name, none⟩, s)
    else
      match Statement.words? (unquote (Text.trim value)) with
      | .error fault => (.error fault, s)
      | .ok words =>
        match s.aliases.set name words with
        | .error fault => (.error fault, s)
        | .ok aliases => (.ok (), { s with aliases })

/-- Applies the assignment of a value to a slot of the theme, to the policy or to a variable. -/
def assign (s : Settings) (key value : String) : Except Fault Unit × Settings :=
  match Text.strip? colorKey key with
  | some slot =>
    match setColor s.theme slot value with
    | .error fault => (.error fault, s)
    | .ok theme => (.ok (), { s with theme })
  | none =>
    if key = "alias_cycles" then
      match CyclePolicy.ofName? value with
      | .error fault => (.error fault, s)
      | .ok policy => (.ok (), { s with aliases.policy := policy })
    else if isVariableName key then (.ok (), { s with env := s.env.set key value })
    else (.error ⟨.invalidVariableName key, none⟩, s)

/-- Applies a line that is neither empty nor a comment. -/
def applyDirective (s : Settings) (line : String) : Except Fault Unit × Settings :=
  match Text.strip? "alias " line with
  | some definition => s.defineAlias definition
  | none =>
    match Text.cutAt '=' ((Text.strip? "export " line).getD line) with
    | none => (.error ⟨.unrecognizedDirective, none⟩, s)
    | some (key, value) => s.assign (Text.trim key) (unquote (Text.trim value))

/-- Applies a line: whether it was rejected, and the settings that it leaves. -/
def applyLine (s : Settings) (line : String) : Except Fault Unit × Settings :=
  let line := Text.trim line
  if line = "" ∨ Text.startsWith "#" line then (.ok (), s) else s.applyDirective line

/-- Applies lines, the first of them having the given number, and notes the rejected ones. -/
def applyLines : Nat → Settings → List String → Settings × List LogEntry
  | _, s, [] => (s, [])
  | number, s, line :: rest =>
    let (verdict, s) := s.applyLine line
    let (s, notes) := applyLines (number + 1) s rest
    match verdict with
    | .ok () => (s, notes)
    | .error fault => (s, .rejectedLine number fault :: notes)

/-- The settings of a startup file on top of a theme, and the notes on its rejected lines. -/
def read (content : String) (theme : Theme) : Settings × List LogEntry :=
  applyLines 1 { theme } (Text.lines content)

end Settings

end NestedShell
