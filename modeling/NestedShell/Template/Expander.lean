/-
  Expanding templates.

  * `%%` is a percent sign;
  * `%{NAME}` is the value of a variable, or its name when it is not set;
  * `%[F12]` and `%[12]` set the colour of the text, `%[B12]` that of the background;
  * `%c` is what the code `c` stands for, or `c` itself.

  A template that ends inside an escape keeps the text of that escape.

  * `machine` is the automaton that reads templates, with a rule for every symbol in every mode;
  * an `Expander` holds the codes and the texts that are remembered;
  * `Expander.expand` expands a template, `register` and `unregister` change the codes.
-/
import NestedShell.Automaton
import NestedShell.Log
import NestedShell.Template.Code

namespace NestedShell

namespace Template

/-! ## Expanders -/

/-- The codes, and what is remembered of them. -/
structure Expander where
  flavor : Flavor
  codes : CodeTable
  /-- the lazy texts that were produced -/
  memo : Std.TreeMap Char String := ∅
  /-- how often the lazy text of a code was produced since the code is registered -/
  produced : Std.TreeMap Char Nat := ∅
  /-- what the last templates left in the buffer for names -/
  name : String := ""
  /-- what they left in the buffer for digits -/
  digits : String := ""

namespace Expander

/-- The expander with the reserved codes only. -/
def new (theme : Theme) (host : Host) (flavor : Flavor) : Expander where
  flavor
  codes := reservedTable theme host flavor

/-- Whether a code stands for something. -/
def isRegistered (e : Expander) (code : Char) : Bool := e.codes.contains code

/-- Adds a code; one that exists already is not replaced. -/
def register (e : Expander) (code : Char) (expansion : Expansion) : Except Fault Expander :=
  if e.isRegistered code then .error ⟨.codeTaken code, none⟩
  else .ok { e with codes := e.codes.insert code expansion }

/-- Removes a code that is not reserved, and what is remembered of it. -/
def unregister (e : Expander) (code : Char) : Bool × Expander :=
  if isReserved code then (false, e)
  else (e.isRegistered code,
    { e with
      codes := e.codes.erase code
      memo := e.memo.erase code
      produced := e.produced.erase code })

/-- The text of a code, and the expander that remembers it. -/
def textOf (e : Expander) (vars : Lookup) (code : Char) : String × Expander :=
  match e.memo[code]? with
  | some text => (text, e)
  | none =>
    match e.codes[code]? with
    | some (.literal text) => (text, e)
    | some (.lazy produce) =>
      let count := e.produced.getD code 0
      let text := produce count
      (text,
        { e with
          memo := e.memo.insert code text
          produced := e.produced.insert code (count + 1) })
    | some (.live produce) => (produce vars, e)
    | none => (code.toString, e)

end Expander

/-! ## The automaton -/

/-- What is being read. -/
inductive Mode where
  /-- ordinary text -/
  | ground
  /-- the character after a percent sign -/
  | percent
  /-- a variable name between braces -/
  | name
  /-- the start of a colour between brackets -/
  | color
  /-- the digits of a colour of the text -/
  | foreground
  /-- the digits of a colour of the background -/
  | background
deriving DecidableEq, Repr

/-- The number of a mode, for messages. -/
def Mode.number : Mode → Nat
  | ground => 0
  | percent => 1
  | name => 2
  | color => 3
  | foreground => 4
  | background => 5

/-- What an expansion works on. -/
structure Canvas where
  out : String := ""
  name : String := ""
  digits : String := ""
  expander : Expander
  log : List LogEntry := []

namespace Canvas

/-- Writes a text. -/
def write (text : String) (k : Canvas) : Canvas := { k with out := k.out ++ text }

/-- Writes a character. -/
def writeChar (c : Char) (k : Canvas) : Canvas := { k with out := k.out.push c }

/-- Starts the name of a variable. -/
def openName (k : Canvas) : Canvas := { k with name := "" }

/-- Adds a character to the name of a variable. -/
def addNameChar (c : Char) (k : Canvas) : Canvas := { k with name := k.name.push c }

/-- Starts the digits of a colour. -/
def openColor (k : Canvas) : Canvas := { k with digits := "" }

/-- Adds a digit to the colour. -/
def addDigit (c : Char) (k : Canvas) : Canvas := { k with digits := k.digits.push c }

/-- Writes the value of the variable, or its name. -/
def writeVariable (vars : Lookup) (k : Canvas) : Canvas :=
  { k with out := k.out ++ (vars k.name).getD k.name, name := "" }

/-- Writes the sequence of an indexed colour; without digits there is none. -/
def writeColor (layer : Nat) (k : Canvas) : Canvas :=
  if k.digits = "" then k
  else k.write (k.expander.flavor.wrap s!"\x1b[{layer};5;{k.digits}m")

/-- Writes what a code stands for, which the expander may remember. -/
def writeCode (vars : Lookup) (code : Char) (k : Canvas) : Canvas :=
  let (text, expander) := k.expander.textOf vars code
  { k with out := k.out ++ text, expander }

/-- Notes a symbol that does not fit into a colour. -/
def noteMalformed (c : Char) (k : Canvas) : Canvas :=
  { k with log := k.log ++ [.malformedEscape c] }

/-- The expander when the expansion is over, with what is left in the buffers. -/
def left (k : Canvas) : Expander := { k.expander with name := k.name, digits := k.digits }

end Canvas

/-- What a template is expanded on: an empty text, and the buffers as they were left. -/
def Expander.canvas (e : Expander) : Canvas :=
  { name := e.name, digits := e.digits, expander := e }

/-- A rule for reading templates. -/
abbrev ModeRule := Rule Char Mode Canvas

/-- Changes the canvas and goes to a mode. -/
def rule (f : Lookup → Char → Canvas → Canvas) (m : Mode) : ModeRule := ⟨some (.change f), some m⟩

/-- The rules for single characters. -/
def exactRule : Mode → Char → Option ModeRule
  | .ground, c => if c = '%' then some ⟨none, some .percent⟩ else none
  | .percent, c =>
    if c = '%' then some (rule (fun _ => Canvas.writeChar) .ground)
    else if c = '{' then some (rule (fun _ _ => Canvas.openName) .name)
    else if c = '[' then some (rule (fun _ _ => Canvas.openColor) .color)
    else none
  | .name, c =>
    if c = '}' then some (rule (fun vars _ => Canvas.writeVariable vars) .ground) else none
  | .color, c =>
    if c = 'F' then some ⟨none, some .foreground⟩
    else if c = 'B' then some ⟨none, some .background⟩
    else if c = ']' then some ⟨none, some .ground⟩
    else if c.isDigit then some (rule (fun _ => Canvas.addDigit) .foreground)
    else none
  | .foreground, c =>
    if c = ']' then some (rule (fun _ _ => Canvas.writeColor 38) .ground)
    else if c.isDigit then some (rule (fun _ => Canvas.addDigit) .foreground)
    else none
  | .background, c =>
    if c = ']' then some (rule (fun _ _ => Canvas.writeColor 48) .ground)
    else if c.isDigit then some (rule (fun _ => Canvas.addDigit) .background)
    else none

/-- The rules for the other characters; in a colour there are none. -/
def anyRule : Mode → Option ModeRule
  | .ground => some (rule (fun _ => Canvas.writeChar) .ground)
  | .percent => some (rule Canvas.writeCode .ground)
  | .name => some (rule (fun _ => Canvas.addNameChar) .name)
  | .color | .foreground | .background => none

/-- The automaton that reads templates.  A symbol that does not fit into a colour is dropped, with
    the colour. -/
def machine : Automaton Char Mode Canvas where
  initial := .ground
  exact := exactRule
  any := anyRule
  fallback := some (rule (fun _ => Canvas.noteMalformed) .ground)

/-! ## Expansion -/

/-- Reads a template.  Next to the run it keeps the text from the start of the escape that is being
    read. -/
def readTemplate (vars : Lookup) : List Char → List Char → Run Char Mode Canvas →
    List Char × Run Char Mode Canvas
  | [], escape, r => (escape, r)
  | c :: cs, escape, r =>
    let escape := if machine.isIdle r then c :: cs else escape
    match machine.step vars c r with
    | (.ok (), r') => readTemplate vars cs escape r'
    | (.error stop, r') =>
      let fault := stop.fault Text.quotedChar (toString ·.number)
      (escape, { r' with
        bench.scratch.log := r'.bench.scratch.log ++ [.brokenTemplate fault] })

/-- What an expansion gives: the text, the expander afterwards, and what was logged. -/
structure Expanded where
  text : String
  expander : Expander
  log : List LogEntry

/-- Expands a template; an escape that is not finished is kept as it stands. -/
def Expander.expand (e : Expander) (vars : Lookup) (template : String) : Expanded :=
  let (escape, r) := readTemplate vars template.toList [] (machine.start e.canvas)
  let canvas := r.bench.scratch
  { text := if machine.isIdle r then canvas.out else canvas.out ++ String.ofList escape
    expander := canvas.left
    log := canvas.log }

/-- A text in which every percent sign is doubled, so that it is expanded to itself. -/
def escape (text : String) : String := Text.replaceChar '%' "%%" text

end Template

end NestedShell
