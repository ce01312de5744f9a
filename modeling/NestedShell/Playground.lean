/-
  The playground: a command set to try nested levels, results and interrupts with.

  * `nest` starts a level with a label, `sum` adds integers, `sleep` waits, `fail` fails, `depth`
    tells how deep the level is;
  * `Playground.perform` runs one of these commands.
-/
import NestedShell.Command
import NestedShell.Number.Seconds
import NestedShell.World

namespace NestedShell

/-- The command set of one level of the playground. -/
structure Playground where
  label : String
  depth : Nat
deriving DecidableEq, Repr

namespace Playground

/-- The playground at the bottom. -/
def root : Playground := ⟨"playground", 1⟩

/-- The commands of a playground and their help. -/
def commands : List CommandInfo := [
  ⟨"nest",
    "Enter a nested level. `exit <value>` hands the value back here.

        Usage:
            nest [<label>]
        "⟩,
  ⟨"sum",
    "Add integers; the total becomes the last result.

        Usage:
            sum <n>...
        "⟩,
  ⟨"sleep",
    "Wait for a while. Ctrl-C cuts it short.

        Usage:
            sleep <seconds>
        "⟩,
  ⟨"fail",
    "Fail on purpose.

        Usage:
            fail
        "⟩,
  ⟨"depth",
    "Print how many levels deep this one is.

        Usage:
            depth
        "⟩]

/-- The sum of two integers, if it is one of 64 bits. -/
def add? (m n : Int64) : Option Int64 :=
  Number.ofInteger? (m.toInt + n.toInt)

/-- Adds the integers that some words write out. -/
def total : Int64 → List String → Except Fault Int64
  | sum, [] => .ok sum
  | sum, word :: words =>
    match Number.int64? word with
    | none => .error (.ofCommand s!"sum: not an integer: {word}" none)
    | some n =>
      match add? sum n with
      | none => .error (.ofCommand "sum: overflow" none)
      | some sum => total sum words

variable {σ : Type}

/-- Waits, unless it is asked to give up. -/
def sleep (inv : Invocation) : Handler σ World (Outcome Playground) := do
  let text := (inv.args.get? "<seconds>").getD "0"
  match Number.nanoseconds? text with
  | none => throw (.ofCommand s!"sleep: invalid duration '{text}'" none)
  | some time =>
    if (← get).interrupted && 0 < time then return .abort
    modify fun d => { d with world := d.world.wait time }
    return .done

/-- Runs a command of a playground by its name. -/
def perform (p : Playground) (inv : Invocation) : Handler σ World (Outcome Playground) := do
  match inv.name with
  | "nest" => return .enter ⟨(inv.args.get? "<label>").getD "nested", p.depth + 1⟩
  | "sum" =>
    let sum ← total 0 (inv.args.list "<n>")
    Handler.print (Number.showInt64 sum)
    return .stay (some (.int sum))
  | "sleep" => sleep inv
  | "fail" => throw (.ofCommand "fail: failed as asked" (some "this command always fails"))
  | "depth" =>
    Handler.print (toString p.depth)
    return .ofStatus (.ofNat p.depth)
  | other => throw (.ofCommand s!"{other}: not implemented" none)

/-- The template of the prompt: who and where at the bottom, the label above it. -/
def promptTemplate (p : Playground) : String :=
  if p.depth = 1 then "%g%u@%h%N %b%d%N> "
  else "%c" ++ Template.escape p.label ++ "%N[%L]> "

/-- Records the value of a nested level, and tells it. -/
def welcome (p : Playground) (value : Value) (env : Environment) (console : Console) :
    Environment × Console :=
  ((env.set statusVariable (Number.showInt64 value.status)).set lastVariable value.shown,
    console.print s!"{p.label}: nested level exited with {value.shown}")

end Playground

/-- The command set of a playground.  A value from the level above is recorded and told. -/
instance : CommandSet Playground World where
  name p := p.label
  commands _ := Playground.commands
  run inv := do (← get).commands.perform inv
  prompt p := some p.promptTemplate
  resume value p env console world :=
    let (env, console) := p.welcome value env console
    (p, env, console, world)

end NestedShell
