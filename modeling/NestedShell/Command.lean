/-
  The contract between the engine and the commands that it runs.

  A command set is the vocabulary of one level.  A handler gets the arguments of a command, works on
  the desk of its level, and answers with an outcome.  Entering and leaving a level is an outcome;
  a fault only says that the command failed, and what it did before stays done.

  * a `Value` is what a command returns, with a status and a text;
  * an `Outcome` is what a handler asks for;
  * a `Desk` is all that a handler may touch, a `Handler` a program that works on it;
  * a `CommandSet` has handlers for its own commands and for unknown ones, and hooks for what
    happens to its level.
-/
import NestedShell.AliasTable
import NestedShell.Console
import NestedShell.Usage.Grammar
import NestedShell.Completion.Suggestion

namespace NestedShell

/-! ## Values and outcomes -/

/-- What a command returns. -/
inductive Value where
  | int (n : Int64)
  | text (s : String)
deriving DecidableEq, Repr

namespace Value

/-- An integer when the text is one between blanks, else the text. -/
def parse (s : String) : Value :=
  match Number.int64? (Text.trim s) with
  | some n => int n
  | none => text s

/-- The status of a value: an integer itself, the number that a text writes out, else zero. -/
def status : Value → Int64
  | int n => n
  | text s => (Number.int64? (Text.trim s)).getD 0

/-- The text of a value, as it is printed and kept in `_`. -/
def shown : Value → String
  | int n => Number.showInt64 n
  | text s => s

end Value

/-- What a handler asks the engine to do next. -/
inductive Outcome (σ : Type) where
  /-- stay at this level, possibly with a result -/
  | stay (result : Option Value)
  /-- start a new level that runs this command set -/
  | enter (commands : σ)
  /-- leave this level and hand the value to the one below -/
  | leave (value : Option Value)
  /-- the command gave up after an interrupt -/
  | abort
deriving DecidableEq, Repr

namespace Outcome

/-- The level goes on, and there is no value. -/
def done {σ : Type} : Outcome σ := stay none

/-- The level goes on with a status as the value. -/
def ofStatus {σ : Type} (status : Int64) : Outcome σ := stay (some (.int status))

/-- The outcome for other command sets: only a level that is entered has one. -/
def map {σ τ : Type} (f : σ → τ) : Outcome σ → Outcome τ
  | stay result => stay result
  | enter commands => enter (f commands)
  | leave value => leave value
  | abort => abort

end Outcome

/-! ## Commands -/

/-- A command: its name, and a help text that begins with a summary and may hold its usage. -/
structure CommandInfo where
  name : String
  help : String
deriving DecidableEq, Repr

/-- The line of a help text that sums it up. -/
def CommandInfo.summary (info : CommandInfo) : String := Usage.summary info.help

/-- What a handler is called with. -/
structure Invocation where
  args : Usage.Arguments
  /-- the commands that can be used at this level, the level's own first -/
  catalog : List CommandInfo

namespace Invocation

/-- The name under which the command is called. -/
def name (inv : Invocation) : String := inv.args.name

/-- The entry of a command among those that can be used. -/
def find? (inv : Invocation) (name : String) : Option CommandInfo :=
  inv.catalog.find? (·.name == name)

/-- The known command that is closest to the name. -/
def suggestion? (inv : Invocation) : Option String :=
  Suggestion.suggestion? inv.name (inv.catalog.map (·.name))

end Invocation

/-! ## Handlers -/

/-- What a handler may touch: its command set, the variables and aliases of its level, the console,
    the interrupt flag, and the world outside the shell. -/
structure Desk (σ ω : Type) where
  commands : σ
  env : Environment
  aliases : AliasTable
  console : Console
  interrupted : Bool
  world : ω

/-- A program that works on a desk and may fail. -/
abbrev Handler (σ ω α : Type) := ExceptT Fault (StateM (Desk σ ω)) α

namespace Handler

variable {σ ω : Type}

/-- Changes the console. -/
def onConsole (f : Console → Console) : Handler σ ω Unit :=
  modify fun d => { d with console := f d.console }

/-- Writes a text to the output. -/
def write (text : String) : Handler σ ω Unit := onConsole (·.write text)

/-- Writes a text and a line end to the output. -/
def print (text : String) : Handler σ ω Unit := onConsole (·.print text)

/-- Writes an error message. -/
def error (text : String) : Handler σ ω Unit := onConsole (·.error text)

/-- Expands a template with the variables of the level and writes it. -/
def printf (template : String) : Handler σ ω Unit :=
  modify fun d => { d with console := d.console.printf d.env.lookup template }

/-- Writes a help text, expanded with the variables of the level. -/
def printDoc (doc : String) : Handler σ ω Unit :=
  modify fun d => { d with console := d.console.printDoc d.env.lookup doc }

/-- Changes the variables of the level. -/
def onEnv (f : Environment → Environment) : Handler σ ω Unit :=
  modify fun d => { d with env := f d.env }

/-- Fails with a fault; what was done before stays done. -/
def fail {α : Type} (fault : Fault) : Handler σ ω α := throw fault

/-- Says that a command is not known, with the closest one that is. -/
def reportUnknown (inv : Invocation) : Handler σ ω (Outcome σ) := do
  match inv.suggestion? with
  | some hint => error s!"unknown command: {inv.name} (did you mean '{hint}'?)"
  | none => error s!"unknown command: {inv.name}"
  return .ofStatus 2

end Handler

/-! ## Command sets -/

/-- The vocabularies of levels.  `σ` are the states of command sets, of all kinds that may run in
    one shell, and `ω` is the world outside that their handlers and hooks may change. -/
class CommandSet (σ : Type) (ω : outParam Type) where
  name : σ → String
  commands : σ → List CommandInfo
  run : Invocation → Handler σ ω (Outcome σ)
  /-- is called for a name that is no command -/
  unknown : Invocation → Handler σ ω (Outcome σ) := Handler.reportUnknown
  /-- the template of the primary prompt of a level -/
  prompt : σ → Option String := fun _ => none
  /-- is called when the level above has handed over a value -/
  resume : Value → σ → Environment → Console → ω → σ × Environment × Console × ω :=
    fun _ s env console world => (s, env, console, world)
  /-- is called when a handler of the level has failed -/
  reportFault : Fault → σ → Console → ω → σ × Console × ω :=
    fun fault s console world => (s, console.error fault.summary, world)
  /-- is called when the level is left -/
  finalize : σ → ω → ω := fun _ world => world

end NestedShell
