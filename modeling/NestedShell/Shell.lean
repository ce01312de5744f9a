/-
  The shell: the stack of levels, the console, the interrupt flag, and the world outside.

  * `Shell.enter` starts a level with given variables and aliases, `pushRoot` and `push` are its two
    uses: at the bottom, and on top of the active level;
  * `Shell.pop` leaves the active level and hands a value to the one below.
-/
import NestedShell.Level

namespace NestedShell

/-- All that is shared by the levels. -/
structure Shell (σ ω : Type) where
  stack : Stack σ := {}
  console : Console
  /-- raised when the user asks the running command to give up -/
  interrupted : Bool := false
  world : ω

/-- What is left when a level is left. -/
inductive Unwind where
  /-- the level below is active again -/
  | resumed (depth : Nat)
  /-- the last level is gone -/
  | exhausted
deriving DecidableEq, Repr

namespace Shell

variable {σ ω : Type}

/-- The depth variable of a new level: one more than before, but no more than an integer of 64 bits
    can hold. -/
def nextLevel (env : Environment) : Int64 :=
  if env.shellLevel = Int64.maxValue then Int64.maxValue else env.shellLevel + 1

/-- The variables that a level starts with.  The prompt of the command set replaces the one that is
    there, except at the bottom. -/
def startEnv (env : Environment) (prompt : Option String) (bottom : Bool) : Environment :=
  let env := env.set levelVariable (Number.showInt64 (nextLevel env))
  match prompt with
  | none => env
  | some template =>
    if bottom then env.setDefault primaryPrompt template else env.set primaryPrompt template

/-- The depth of the level that is started next, as it is reported. -/
def nextDepth (s : Shell σ ω) : Nat := s.stack.depth + 1

variable [CommandSet σ ω] (s : Shell σ ω)

/-- Starts a level on top. -/
def enter (commands : σ) (env : Environment) (aliases : AliasTable) (bottom : Bool) : Shell σ ω :=
  let env := startEnv env (CommandSet.prompt commands) bottom
  let level := Level.new commands env aliases s.nextDepth
  { s with stack.levels := level :: s.stack.levels }

/-- Starts a level with given variables and aliases, whose prompt is kept if they have one. -/
def pushRoot (commands : σ) (env : Environment) (aliases : AliasTable) : Shell σ ω :=
  s.enter commands env aliases true

/-- Starts a level with copies of the variables and aliases of the active one. -/
def push (commands : σ) : Shell σ ω :=
  match s.stack.top? with
  | some parent => s.enter commands parent.env parent.aliases false
  | none => s.enter commands .empty {} true

/-- Leaves the active level.  Its command set is told first; then the value goes to the level
    below, or stays behind as the value of the whole stack. -/
def pop (value : Option Value) : Unwind × Shell σ ω :=
  match s.stack.levels with
  | [] => (.exhausted, s)
  | [level] =>
    (.exhausted,
      { s with
        stack := { levels := [], exitValue := value }
        world := CommandSet.finalize level.commands s.world })
  | level :: parent :: below =>
    let world := CommandSet.finalize level.commands s.world
    match value with
    | none =>
      (.resumed (below.length + 1), { s with stack.levels := parent :: below, world })
    | some value =>
      let (commands, env, console, world) :=
        CommandSet.resume value parent.commands parent.env s.console world
      (.resumed (below.length + 1),
        { s with stack.levels := { parent with commands, env } :: below, console, world })

end Shell

end NestedShell
