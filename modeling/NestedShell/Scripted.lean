/-
  Command sets given as data.

  * a `Deed` is what a command does;
  * a `Vocabulary` is a command set given by its commands and their deeds; a full one also has a
    deed for unknown commands, and records values, faults and unknown commands in the journal;
  * `Scripted` are the states of such command sets, in a library of vocabularies that may start
    levels of each other; a name that is not in the library stands for the playground.
-/
import NestedShell.Playground

namespace NestedShell

/-- What a command does. -/
inductive Deed where
  | nothing
  | value (text : String)
  | status (code : Int64)
  /-- prints what some names are bound to, and the arguments -/
  | inspect (keys : List String)
  | enter (vocabulary : String)
  | leave (value : Option Value)
  /-- raises the interrupt flag and gives up -/
  | abort
  | interrupt
  /-- prints whether the interrupt flag is raised -/
  | checkInterrupt
  | setVariable (name value : String)
  | printf (template : String)
  /-- prints the known command that is closest to the name -/
  | suggest
  | fail (message : String) (context : Option String)
deriving DecidableEq, Repr

/-- A command set given by its commands. -/
structure Vocabulary where
  prompt : Option String := none
  full : Bool := false
  /-- what a full vocabulary does for an unknown command -/
  fallback : Deed := .nothing
  commands : List (CommandInfo × Deed) := []
deriving DecidableEq, Repr

/-- The states of the command sets in a library. -/
inductive Scripted where
  | vocabulary (name : String) (library : List (String × Vocabulary))
  | playground (p : Playground)
deriving DecidableEq, Repr

namespace Scripted

/-- The command set of a name in a library. -/
def find (library : List (String × Vocabulary)) (name : String) : Scripted :=
  if (library.lookup name).isSome then vocabulary name library else playground .root

/-- The vocabulary of a name; without commands when there is none. -/
def vocabularyOf (library : List (String × Vocabulary)) (name : String) : Vocabulary :=
  (library.lookup name).getD {}

/-- Whether the parts of a full vocabulary are there. -/
def isFull (library : List (String × Vocabulary)) (name : String) : Bool :=
  (vocabularyOf library name).full

/-- What a name is bound to, in one line. -/
def bindingLine (args : Usage.Arguments) (key : String) : String :=
  let word := (args.get? key).getD "-"
  let words := ",".intercalate (args.list key)
  s!"{key} get={word} list=[{words}] flag={args.flag key}"

/-- Does a deed; the library has the vocabularies of the levels that can be entered. -/
def perform (library : List (String × Vocabulary)) (inv : Invocation) :
    Deed → Handler Scripted World (Outcome Scripted)
  | .nothing => return .done
  | .value text => return .stay (some (.text text))
  | .status code => return .ofStatus code
  | .inspect keys => do
    for key in keys do
      Handler.print (bindingLine inv.args key)
    Handler.print ("rest=[" ++ ",".intercalate inv.args.rest ++ "]")
    return .done
  | .enter name => return .enter (find library name)
  | .leave value => return .leave value
  | .abort => do
    modify fun d => { d with interrupted := true }
    return .abort
  | .interrupt => do
    modify fun d => { d with interrupted := true }
    return .done
  | .checkInterrupt => do
    let interrupted := (← get).interrupted
    Handler.print s!"interrupted={interrupted}"
    return .done
  | .setVariable name value => do
    Handler.onEnv (·.set name value)
    return .done
  | .printf template => do
    Handler.printf template
    return .done
  | .suggest => do
    Handler.print (inv.suggestion?.getD "none")
    return .done
  | .fail message context => throw (.ofCommand message context)

/-- Runs the last command of the name that is given. -/
def runCommand (inv : Invocation) : Handler Scripted World (Outcome Scripted) := do
  match (← get).commands with
  | playground p => return (← p.perform inv).map playground
  | vocabulary name library =>
    let commands := (vocabularyOf library name).commands
    match commands.reverse.find? (·.1.name == inv.name) with
    | some (_, deed) => perform library inv deed
    | none => return .done

/-- Adds a line with the name of a command set to the journal. -/
def note (name text : String) (world : World) : World := world.write s!"{name}: {text}"

/-- What happens to a name that is no command: a full vocabulary notes it and has a deed for it. -/
def meetUnknown (inv : Invocation) : Handler Scripted World (Outcome Scripted) := do
  match (← get).commands with
  | playground _ => Handler.reportUnknown inv
  | vocabulary name library =>
    let v := vocabularyOf library name
    if v.full then
      let words := " ".intercalate inv.args.argv
      modify fun d => { d with world := note name s!"unknown {words}" d.world }
      perform library inv v.fallback
    else Handler.reportUnknown inv

end Scripted

/-- A command set by its vocabulary.  Only a full one notes values, faults and unknown names; every
    one notes in the journal that it was left. -/
instance : CommandSet Scripted World where
  name
    | .playground p => p.label
    | .vocabulary name _ => name
  commands
    | .playground _ => Playground.commands
    | .vocabulary name library => (Scripted.vocabularyOf library name).commands.map (·.1)
  run := Scripted.runCommand
  unknown := Scripted.meetUnknown
  prompt
    | .playground p => some p.promptTemplate
    | .vocabulary name library => (Scripted.vocabularyOf library name).prompt
  resume value s env console world :=
    match s with
    | .playground p =>
      let (env, console) := p.welcome value env console
      (s, env, console, world)
    | .vocabulary name library =>
      if Scripted.isFull library name then
        (s,
          (env.set statusVariable (Number.showInt64 value.status)).set lastVariable value.shown,
          console.warning s!"resumed with {value.shown}",
          Scripted.note name s!"resume {value.shown}" world)
      else (s, env, console, world)
  reportFault fault s console world :=
    match s with
    | .playground _ => (s, console.error fault.summary, world)
    | .vocabulary name library =>
      if Scripted.isFull library name then
        (s, console.error fault.summary, Scripted.note name s!"error {fault.message}" world)
      else (s, console.error fault.summary, world)
  finalize s world :=
    match s with
    | .playground _ => world
    | .vocabulary name _ => Scripted.note name "finalize" world

end NestedShell
