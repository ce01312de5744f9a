/-
  Dispatching one statement to the active level.

  Aliases are expanded; the first word then names a command of the level, or a builtin, or nothing
  that is known; the arguments are bound by the usage of the command; the handler runs; and its
  outcome moves the stack.

  * `catalog` and `route` find the command, `bindArguments` binds its arguments, and `plan` is what
    is to be done for a statement;
  * `Shell.carryOut` does it: it runs the handler on the desk of the active level;
  * `Shell.dispatch` plans, does it, and says what became of the statement.
-/
import NestedShell.Shell

namespace NestedShell

/-- What became of a statement. -/
inductive Dispatch where
  /-- it was empty or a comment -/
  | skipped
  | completed
  /-- it failed, which has been reported -/
  | failed
  | entered (depth : Nat)
  | exited (depth : Nat)
  /-- no level is left -/
  | ended
  /-- the command gave up after an interrupt -/
  | aborted
deriving DecidableEq, Repr

/-- Who handles a command. -/
inductive Route where
  | level | builtin | unknown
deriving DecidableEq, Repr

/-- What a level is to do for a statement. -/
inductive Plan where
  | skip
  /-- report that the statement is not run -/
  | refuse (fault : Fault)
  | call (route : Route) (inv : Invocation)

namespace Dispatch

/-- Whether a statement does nothing: it has no first word, or a comment sign starts it. -/
def isNoop (argv : List String) : Bool :=
  match argv with
  | [] => true
  | head :: _ => head = "" || Text.startsWith "#" head

/-- The commands of a level, and the builtins that it does not override. -/
def catalog (own : List CommandInfo) : List CommandInfo :=
  own ++ builtins.filter fun info => !own.any (·.name == info.name)

/-- Who handles the command of a name. -/
def route (own : List CommandInfo) (name : String) : Route :=
  if own.any (·.name == name) then .level
  else if isBuiltin name then .builtin
  else .unknown

/-- The arguments of a statement.  A usage that cannot be read is noted, and the words stay as they
    are; so they do when there is no usage. -/
def bindArguments (info : Option CommandInfo) (argv : List String) :
    Except Fault Usage.Arguments × List LogEntry :=
  match info with
  | none => (.ok (.bare argv), [])
  | some info =>
    match Usage.ofHelp? info.help with
    | .ok (some usage) => (usage.apply argv, [])
    | .ok none => (.ok (.bare argv), [])
    | .error fault => (.ok (.bare argv), [.badUsage info.name fault])

/-- The plan for the words that aliases have been replaced in. -/
def planExpanded (own : List CommandInfo) (argv : List String) : Plan × List LogEntry :=
  if isNoop argv then (.skip, [])
  else
    let catalog := catalog own
    let name := argv.headD ""
    match bindArguments (catalog.find? (·.name == name)) argv with
    | (.error fault, notes) => (.refuse fault, notes)
    | (.ok args, notes) => (.call (route own name) ⟨args, catalog⟩, notes)

/-- The plan for a statement at a level with these commands and aliases, and what is to be noted. -/
def plan (own : List CommandInfo) (aliases : AliasTable) (argv : List String) :
    Plan × List LogEntry :=
  if isNoop argv then (.skip, [])
  else match aliases.expand argv with
  | .error fault => (.refuse fault, [])
  | .ok argv => planExpanded own argv

end Dispatch

namespace Shell

open Dispatch

variable {σ ω : Type} [CommandSet σ ω]

/-- The desk at which a handler of a level works. -/
def desk (s : Shell σ ω) (level : Level σ) : Desk σ ω where
  commands := level.commands
  env := level.env
  aliases := level.aliases
  console := s.console
  interrupted := s.interrupted
  world := s.world

/-- Puts a desk back to the level that it belongs to, which is the active one. -/
def putBack (s : Shell σ ω) (d : Desk σ ω) : Shell σ ω :=
  { stack := s.stack.onTop fun level =>
      { level with commands := d.commands, env := d.env, aliases := d.aliases }
    console := d.console
    interrupted := d.interrupted
    world := d.world }

/-- Sets a variable of the active level. -/
def setVariable (s : Shell σ ω) (name value : String) : Shell σ ω :=
  { s with stack := s.stack.onTop fun level => { level with env := level.env.set name value } }

/-- Reports that a statement was not run, as a warning and in the status. -/
def refuse (s : Shell σ ω) (fault : Fault) : Shell σ ω :=
  { s with console := s.console.warning fault.message }.setVariable statusVariable "2"

/-- The handler that a route leads to. -/
def handlerOf (route : Route) (inv : Invocation) : Handler σ ω (Outcome σ) :=
  match route with
  | .level => CommandSet.run inv
  | .builtin => Builtin.run inv
  | .unknown => CommandSet.unknown inv

/-- Has the command set of the active level report a fault, and sets the status. -/
def reportFault (s : Shell σ ω) (fault : Fault) : Shell σ ω :=
  match s.stack.top? with
  | none => s
  | some level =>
    let (commands, console, world) :=
      CommandSet.reportFault fault level.commands s.console s.world
    { s with
      stack := s.stack.onTop fun level => { level with commands }
      console
      world }.setVariable statusVariable "1"

/-- Does what a handler asked for. -/
def conclude (s : Shell σ ω) : Outcome σ → Dispatch × Shell σ ω
  | .stay (some value) =>
    (.completed,
      (s.setVariable statusVariable (Number.showInt64 value.status)).setVariable lastVariable
        value.shown)
  | .stay none => (.completed, s.setVariable statusVariable "0")
  | .enter commands => (.entered s.nextDepth, s.push commands)
  | .leave value =>
    match s.pop value with
    | (.resumed depth, s) => (.exited depth, s)
    | (.exhausted, s) => (.ended, s)
  | .abort => (.aborted, { s with interrupted := false, console := s.console.write "\n" })

/-- Does what is planned at the active level. -/
def carryOut (s : Shell σ ω) (level : Level σ) : Plan → Dispatch × Shell σ ω
  | .skip => (.skipped, s)
  | .refuse fault => (.failed, s.refuse fault)
  | .call route inv =>
    match (handlerOf route inv).run.run (s.desk level) with
    | (.ok outcome, d) => (s.putBack d).conclude outcome
    | (.error fault, d) => (.failed, (s.putBack d).reportFault fault)

/-- Adds entries to the log, in order. -/
def noteAll (s : Shell σ ω) (notes : List LogEntry) : Shell σ ω :=
  { s with console := notes.foldl Console.note s.console }

/-- Dispatches a statement to the active level; without levels the session has ended. -/
def dispatch (s : Shell σ ω) (argv : List String) : Dispatch × Shell σ ω :=
  match s.stack.top? with
  | none => (.ended, s)
  | some level =>
    let (plan, notes) := plan (CommandSet.commands level.commands) level.aliases argv
    (s.noteAll notes).carryOut level plan

end Shell

end NestedShell
