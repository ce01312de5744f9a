/-
  Themes: which colour each kind of text gets.

  * a `Slot` is a kind of text, a `Theme` gives each slot the name of a colour;
  * `colorSequence` is the escape sequence that a colour's name stands for;
  * `Theme.ansi` names a colour in every slot, `Theme.plain` in none.
-/
import NestedShell.Text.Cut

namespace NestedShell

/-- The kinds of text that have a colour of their own. -/
inductive Slot where
  | bright | normal | default
  | red | green | yellow | blue | magenta | cyan | white
  | brightRed | brightGreen | brightYellow | brightBlue | brightMagenta | brightCyan | brightWhite
  | helpText
deriving DecidableEq, Repr

namespace Slot

/-- All slots, in the order in which they are listed. -/
def all : List Slot :=
  [.bright, .normal, .default, .red, .green, .yellow, .blue, .magenta, .cyan, .white,
   .brightRed, .brightGreen, .brightYellow, .brightBlue, .brightMagenta, .brightCyan,
   .brightWhite, .helpText]

/-- The name of a slot in settings. -/
def name : Slot → String
  | bright => "bright"
  | normal => "normal"
  | default => "default"
  | red => "red"
  | green => "green"
  | yellow => "yellow"
  | blue => "blue"
  | magenta => "magenta"
  | cyan => "cyan"
  | white => "white"
  | brightRed => "bright_red"
  | brightGreen => "bright_green"
  | brightYellow => "bright_yellow"
  | brightBlue => "bright_blue"
  | brightMagenta => "bright_magenta"
  | brightCyan => "bright_cyan"
  | brightWhite => "bright_white"
  | helpText => "help_text"

/-- The slot of a name. -/
def ofName? (name : String) : Option Slot :=
  all.find? (·.name == name)

theorem ofName?_name (slot : Slot) : ofName? slot.name = some slot := by
  cases slot <;> decide

end Slot

/-- Escape sequences of the colours that have a name. -/
def namedColors : List (String × String) :=
  [("reset", "\x1b[0m"), ("normal", "\x1b[0m"), ("default", "\x1b[39;49m"),
   ("black", "\x1b[30m"), ("red", "\x1b[31m"), ("green", "\x1b[32m"), ("yellow", "\x1b[33m"),
   ("blue", "\x1b[34m"), ("magenta", "\x1b[35m"), ("cyan", "\x1b[36m"), ("white", "\x1b[37m"),
   ("bright_black", "\x1b[90m"), ("gray", "\x1b[90m"), ("grey", "\x1b[90m"),
   ("bright_red", "\x1b[91m"), ("bright_green", "\x1b[92m"), ("bright_yellow", "\x1b[93m"),
   ("bright_blue", "\x1b[94m"), ("bright_magenta", "\x1b[95m"), ("bright_cyan", "\x1b[96m"),
   ("bright_white", "\x1b[97m"), ("bold", "\x1b[1m"), ("dim", "\x1b[2m")]

/-- Lower case as far as it can lead to an ASCII letter: besides the ASCII letters only the Kelvin
    sign has an ASCII letter as its lower case. -/
def lowerTowardsAscii (c : Char) : Char :=
  if c = '\u212a' then 'k' else c.toLower

/-- The escape sequence of a colour: nothing for `none`, the rest after `ansi:`, a text that already
    holds an escape as it is, the sequence of a named colour, and nothing for other names. -/
def colorSequence (color : String) : String :=
  let color := Text.trim color
  if color = "" ∨ Text.lowerAscii color = "none" then ""
  else match Text.strip? "ansi:" color with
    | some sequence => sequence
    | none =>
      if '\x1b' ∈ color.toList then color
      else (namedColors.lookup (String.ofList (color.toList.map lowerTowardsAscii))).getD ""

/-- A theme: the name of a colour for every slot. -/
structure Theme where
  color : Slot → String

namespace Theme

/-- The theme that colours everything after the name of its slot. -/
def ansi : Theme where
  color
    | .bright => "bold"
    | .normal => "reset"
    | .helpText => "green"
    | slot => slot.name

/-- The theme without colours. -/
def plain : Theme where
  color _ := "none"

/-- Gives a slot another colour. -/
def set (theme : Theme) (slot : Slot) (color : String) : Theme where
  color other := if other = slot then color else theme.color other

/-- The sequence that switches to the colour of a slot. -/
def sequence (theme : Theme) (slot : Slot) : String :=
  colorSequence (theme.color slot)

theorem color_set (theme : Theme) (slot : Slot) (color : String) (other : Slot) :
    (theme.set slot color).color other = if other = slot then color else theme.color other := rfl

end Theme

end NestedShell
