/-
  The codes of templates: single characters after a percent sign that stand for a text.

  * an `Expansion` is what a code stands for;
  * a `Flavor` says how colour sequences are written;
  * `reservedCodes` are the codes that exist from the start and cannot be removed.
-/
import NestedShell.Environment
import NestedShell.Theme
import NestedShell.Text.Escaped

namespace NestedShell.Template

/-! ## Flavours -/

/-- How colour sequences are written. -/
inductive Flavor where
  /-- between markers, so that a line editor does not count them -/
  | editor
  /-- as they are -/
  | plain
deriving DecidableEq, Repr

/-- The marker in front of a sequence that takes no room on the line. -/
def startMark : Char := '\x01'

/-- The marker after a sequence that takes no room on the line. -/
def endMark : Char := '\x02'

/-- A colour sequence in a flavour. -/
def Flavor.wrap (flavor : Flavor) (sequence : String) : String :=
  if sequence = "" then ""
  else match flavor with
    | editor => String.ofList (startMark :: sequence.toList ++ [endMark])
    | plain => sequence

/-- The markers, written out. -/
theorem Flavor.wrap_of_ne {sequence : String} (h : sequence ≠ "") (flavor : Flavor) :
    flavor.wrap sequence =
      match flavor with
      | editor => "\x01" ++ sequence ++ "\x02"
      | plain => sequence := by
  cases flavor with
  | editor =>
    rw [wrap, if_neg h]
    simp [← String.toList_inj, startMark, endMark]
  | plain => rw [wrap, if_neg h]

/-! ## Expansions -/

/-- What a code stands for. -/
inductive Expansion where
  | literal (text : String)
  /-- a text that is produced when it is first needed, and then remembered; producing it again may
      give another text, so it depends on how often that happened before -/
  | lazy (produce : Nat → String)
  /-- a text that is produced whenever it is needed -/
  | live (produce : Lookup → String)

/-- What is shown of an expansion: the text of a literal, and that there is more to the others. -/
def Expansion.describe : Expansion → String
  | literal text => s!"Literal({Text.quotedString text})"
  | lazy _ => "Lazy(..)"
  | live _ => "Live(..)"

/-- What the codes stand for. -/
abbrev CodeTable := Std.TreeMap Char Expansion

/-- The facts about the machine that some codes stand for. -/
structure Host where
  name : String := ""
  user : String := ""
  directory : String := ""
  time : String := ""
  date : String := ""

/-- The codes of the colours of a theme. -/
def themeCodes : List (Char × Slot) :=
  [('I', .bright), ('N', .normal), ('D', .default), ('R', .brightRed), ('G', .brightGreen),
   ('Y', .brightYellow), ('B', .brightBlue), ('M', .brightMagenta), ('C', .brightCyan),
   ('W', .brightWhite), ('r', .red), ('g', .green), ('y', .yellow), ('b', .blue),
   ('m', .magenta), ('c', .cyan), ('w', .white)]

/-- The other reserved codes: line end, machine, user, directory, nesting depth, time and date. -/
def hostCodes (host : Host) : List (Char × Expansion) :=
  [('n', .literal "\n"), ('h', .lazy fun _ => host.name), ('u', .lazy fun _ => host.user),
   ('d', .live fun _ => host.directory), ('L', .live fun vars => (vars levelVariable).getD ""),
   ('t', .live fun _ => host.time), ('T', .live fun _ => host.date)]

/-- The codes that exist from the start. -/
def reservedCodes (theme : Theme) (host : Host) (flavor : Flavor) : List (Char × Expansion) :=
  themeCodes.map (fun (code, slot) => (code, .literal (flavor.wrap (theme.sequence slot)))) ++
    hostCodes host

/-- Whether a code exists from the start. -/
def isReserved (code : Char) : Bool :=
  code ∈ "INDRGYBMCWrgybmcwnhudLtT".toList

/-- The table of the codes that exist from the start. -/
def reservedTable (theme : Theme) (host : Host) (flavor : Flavor) : CodeTable :=
  (reservedCodes theme host flavor).foldl (fun t e => t.insert e.1 e.2) ∅

theorem map_fst_reservedCodes (theme : Theme) (host : Host) (flavor : Flavor) :
    ((reservedCodes theme host flavor).map (·.1)) = "INDRGYBMCWrgybmcwnhudLtT".toList := by
  rw [show "INDRGYBMCWrgybmcwnhudLtT".toList = themeCodes.map (·.1) ++ (hostCodes {}).map (·.1) from
    by decide]
  rfl

end NestedShell.Template
