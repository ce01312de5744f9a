/-
  The engine treats all command sets alike.

  A function between command sets, and one between worlds, may carry every handler and hook of the
  one to the same handler or hook of the other.  Such a morphism carries every shell to a shell that
  does the same.

  * `Shell.map`: a shell with other command sets and another world;
  * `CommandSet.Morphism`: two functions that the handlers and hooks commute with;
  * `push_map`, `pop_map`, `dispatch_map`: so does what a shell does.
-/
import NestedShell.Proofs.Shell.Builtins
import NestedShell.Proofs.Shell.Levels

namespace NestedShell

variable {σ τ ω χ : Type}

/-! ## Other command sets, another world -/

/-- The level with another command set. -/
def Level.map (f : σ → τ) (l : Level σ) : Level τ where
  commands := f l.commands
  env := l.env
  aliases := l.aliases
  depth := l.depth
  scopes := l.scopes

/-- The stack with other command sets. -/
def Stack.map (f : σ → τ) (s : Stack σ) : Stack τ where
  levels := s.levels.map (Level.map f)
  exitValue := s.exitValue

/-- The desk with another command set and another world. -/
def Desk.map (f : σ → τ) (g : ω → χ) (d : Desk σ ω) : Desk τ χ where
  commands := f d.commands
  env := d.env
  aliases := d.aliases
  console := d.console
  interrupted := d.interrupted
  world := g d.world

/-- A shell with other command sets and another world. -/
def Shell.map (f : σ → τ) (g : ω → χ) (s : Shell σ ω) : Shell τ χ where
  stack := s.stack.map f
  console := s.console
  interrupted := s.interrupted
  world := g s.world

section
variable (f : σ → τ) (g : ω → χ)

@[simp]
theorem Level.commands_map (l : Level σ) : (l.map f).commands = f l.commands := rfl

@[simp]
theorem Level.env_map (l : Level σ) : (l.map f).env = l.env := rfl

@[simp]
theorem Level.aliases_map (l : Level σ) : (l.map f).aliases = l.aliases := rfl

@[simp]
theorem Stack.top?_map (s : Stack σ) : (s.map f).top? = s.top?.map (Level.map f) := by
  rw [top?, top?, map, List.head?_map]

theorem Shell.top?_map (s : Shell σ ω) :
    (s.map f g).stack.top? = s.stack.top?.map (Level.map f) :=
  s.stack.top?_map f

theorem Shell.desk_map (s : Shell σ ω) (level : Level σ) :
    (s.map f g).desk (level.map f) = (s.desk level).map f g := rfl

@[simp]
theorem Stack.depth_map (s : Stack σ) : (s.map f).depth = s.depth := List.length_map _

@[simp]
theorem Shell.nextDepth_map (s : Shell σ ω) : (s.map f g).nextDepth = s.nextDepth :=
  congrArg (· + 1) (s.stack.depth_map f)

theorem Stack.onTop_map {s : Stack σ} {u : Level σ → Level σ} {v : Level τ → Level τ}
    (h : ∀ l, v (l.map f) = (u l).map f) : (s.map f).onTop v = (s.onTop u).map f := by
  obtain ⟨levels, exitValue⟩ := s
  cases levels with
  | nil => rfl
  | cons l below => simp only [onTop, map, List.map_cons, List.modifyHead_cons, h]

theorem Shell.putBack_map (s : Shell σ ω) (d : Desk σ ω) :
    (s.map f g).putBack (d.map f g) = (s.putBack d).map f g := by
  simp only [putBack, map]
  rw [Stack.onTop_map]
  · rfl
  · exact fun _ => rfl

theorem Shell.setVariable_map (s : Shell σ ω) (name value : String) :
    (s.map f g).setVariable name value = (s.setVariable name value).map f g := by
  simp only [setVariable, map]
  rw [Stack.onTop_map]
  exact fun _ => rfl

theorem Shell.noteAll_map (s : Shell σ ω) (notes : List LogEntry) :
    (s.map f g).noteAll notes = (s.noteAll notes).map f g := rfl

theorem Shell.refuse_map (s : Shell σ ω) (fault : Fault) :
    (s.map f g).refuse fault = (s.refuse fault).map f g := by
  simp only [refuse, setVariable, map]
  rw [Stack.onTop_map]
  exact fun _ => rfl

end

/-! ## Morphisms -/

/-- An answer about command sets that are carried along and back is the same. -/
theorem Outcome.map_map_of_leftInverse {f : σ → τ} {g : τ → σ} (h : ∀ s, g (f s) = s)
    (answer : Except Fault (Outcome σ)) :
    (answer.map (Outcome.map f)).map (Outcome.map g) = answer := by
  rcases answer with fault | ⟨result | commands | value | _⟩
  case ok.enter => exact congrArg (fun s => Except.ok (Outcome.enter s)) (h commands)
  all_goals rfl

/-- So is a stack. -/
theorem Stack.map_map_of_leftInverse {f : σ → τ} {g : τ → σ} (h : ∀ s, g (f s) = s)
    (s : Stack σ) : (s.map f).map g = s := by
  have hlevel : Level.map g ∘ Level.map f = id := by
    funext l
    rw [Function.comp_apply, Level.map, Level.map, h]
    rfl
  rw [map, map, List.map_map, hlevel, List.map_id]

/-- Two handlers do the same on a desk and on the one that it is carried to. -/
def Handler.Commutes (f : σ → τ) (g : ω → χ) (h : Handler σ ω (Outcome σ))
    (h' : Handler τ χ (Outcome τ)) : Prop :=
  ∀ d, h'.run.run (d.map f g) = (h.run.run d).map (Except.map (Outcome.map f)) (Desk.map f g)

theorem Desk.Alike.eq_map {d : Desk σ ω} {d' : Desk τ χ} (h : d.Alike d') {f : σ → τ} {g : ω → χ}
    (hcommands : d'.commands = f d.commands) (hworld : d'.world = g d.world) :
    d' = d.map f g := by
  obtain ⟨commands, env, aliases, console, interrupted, world⟩ := d'
  obtain ⟨henv, haliases, hconsole, hinterrupted⟩ := h
  simp only at henv haliases hconsole hinterrupted hcommands hworld
  rw [Desk.map, henv, haliases, hconsole, hinterrupted, hcommands, hworld]

theorem Answers.eq_map {answer : Except Fault (Outcome σ)} {answer' : Except Fault (Outcome τ)}
    (h : Answers Outcome.Alike answer answer') (f : σ → τ) :
    answer' = answer.map (Outcome.map f) := by
  cases h with
  | ok h => cases h <;> rfl
  | error fault => rfl

/-- Handlers that do the same at every level do so on the two desks. -/
theorem Handler.Alike.commutes {h : Handler σ ω (Outcome σ)} {h' : Handler τ χ (Outcome τ)}
    (hh : Alike Outcome.Alike h h') (f : σ → τ) (g : ω → χ) : Commutes f g h h' := by
  intro d
  obtain ⟨hanswers, halike, hkeeps, hkeeps'⟩ := hh d (d.map f g) ⟨rfl, rfl, rfl, rfl⟩
  refine Prod.ext (hanswers.eq_map f) (halike.eq_map ?_ ?_)
  · rw [hkeeps.commands, hkeeps'.commands]
    rfl
  · rw [hkeeps.world, hkeeps'.world]
    rfl

/-- Two functions that the handlers and hooks commute with. -/
structure CommandSet.Morphism [CommandSet σ ω] [CommandSet τ χ] (f : σ → τ) (g : ω → χ) :
    Prop where
  commands : ∀ s, CommandSet.commands (f s) = CommandSet.commands s
  prompt : ∀ s, CommandSet.prompt (f s) = CommandSet.prompt s
  run : ∀ inv, Handler.Commutes f g (CommandSet.run inv) (CommandSet.run inv)
  unknown : ∀ inv, Handler.Commutes f g (CommandSet.unknown inv) (CommandSet.unknown inv)
  resume : ∀ value s env console world,
    CommandSet.resume value (f s) env console (g world) =
      let (s, env, console, world) := CommandSet.resume value s env console world
      (f s, env, console, g world)
  reportFault : ∀ fault s console world,
    CommandSet.reportFault fault (f s) console (g world) =
      let (s, console, world) := CommandSet.reportFault fault s console world
      (f s, console, g world)
  finalize : ∀ s world, CommandSet.finalize (f s) (g world) = g (CommandSet.finalize s world)

section
variable [CommandSet σ ω] [CommandSet τ χ] {f : σ → τ} {g : ω → χ}
  (m : CommandSet.Morphism f g)
include m

theorem Level.new_map (commands : σ) (env : Environment) (aliases : AliasTable) (depth : Nat) :
    Level.new (f commands) env aliases depth = (Level.new commands env aliases depth).map f := by
  simp only [Level.new, m.commands]
  rfl

namespace Shell

open Dispatch

variable (s : Shell σ ω)

/-! ## Entering and leaving -/

theorem enter_map (commands : σ) (env : Environment) (aliases : AliasTable) (bottom : Bool) :
    (s.map f g).enter (f commands) env aliases bottom =
      (s.enter commands env aliases bottom).map f g := by
  rw [enter, enter, s.nextDepth_map, m.prompt, Level.new_map m]
  rfl

theorem push_map (commands : σ) : (s.map f g).push (f commands) = (s.push commands).map f g := by
  rw [push, push, top?_map]
  cases s.stack.top? <;> exact s.enter_map m ..

theorem pop_map (value : Option Value) :
    (s.map f g).pop value = (s.pop value).map id (Shell.map f g) := by
  obtain ⟨⟨levels, exitValue⟩, console, interrupted, world⟩ := s
  rcases levels with _ | ⟨level, _ | ⟨parent, below⟩⟩
  · rfl
  · simp [pop, map, Stack.map, Level.map, m.finalize]
  · cases value with
    | none => simp [pop, map, Stack.map, Level.map, m.finalize]
    | some value => simp [pop, map, Stack.map, Level.map, m.finalize, m.resume]

/-! ## Statements -/

theorem conclude_map (outcome : Outcome σ) :
    (s.map f g).conclude (outcome.map f) = (s.conclude outcome).map id (Shell.map f g) := by
  cases outcome with
  | stay value =>
    cases value <;> simp only [Outcome.map, conclude, setVariable_map, Prod.map_apply, id_eq]
  | enter commands =>
    simp only [Outcome.map, conclude, s.push_map m, nextDepth_map, Prod.map_apply, id_eq]
  | leave value =>
    simp only [Outcome.map, conclude, s.pop_map m]
    rcases s.pop value with ⟨_ | _, _⟩ <;> rfl
  | abort => rfl

theorem reportFault_map (fault : Fault) :
    (s.map f g).reportFault fault = (s.reportFault fault).map f g := by
  rw [reportFault, reportFault, top?_map]
  cases s.stack.top? with
  | none => rfl
  | some level =>
    simp only [Option.map_some]
    rw [Level.commands_map, show (s.map f g).world = g s.world from rfl,
      show (s.map f g).console = s.console from rfl, m.reportFault]
    rcases CommandSet.reportFault fault level.commands s.console s.world with
      ⟨commands, console, world⟩
    rw [← setVariable_map]
    refine congrArg (setVariable · _ _) ?_
    simp only [map]
    rw [Stack.onTop_map]
    exact fun _ => rfl

theorem handlerOf_commutes (route : Route) (inv : Invocation) :
    Handler.Commutes f g (handlerOf route inv) (handlerOf route inv) := by
  cases route with
  | level => exact m.run inv
  | builtin => exact (Builtin.alike_run inv).commutes f g
  | unknown => exact m.unknown inv

theorem carryOut_map (level : Level σ) (plan : Plan) :
    (s.map f g).carryOut (level.map f) plan = (s.carryOut level plan).map id (Shell.map f g) := by
  cases plan with
  | skip => rfl
  | refuse fault => exact congrArg (Prod.mk _) (s.refuse_map f g fault)
  | call route inv =>
    simp only [carryOut]
    rw [desk_map, handlerOf_commutes m route inv]
    rcases (handlerOf route inv).run.run (s.desk level) with ⟨fault | outcome, d⟩
    · simp only [Prod.map_apply, Except.map, putBack_map, reportFault_map m, id_eq]
    · simp only [Prod.map_apply, Except.map, putBack_map, conclude_map m]

/-- **What dispatching a statement does** is carried along. -/
theorem dispatch_map (argv : Words) :
    (s.map f g).dispatch argv = (s.dispatch argv).map id (Shell.map f g) := by
  rw [dispatch, dispatch, top?_map]
  cases s.stack.top? with
  | none => rfl
  | some level =>
    simp only [Option.map_some, Level.commands_map, m.commands, Level.aliases_map]
    exact carryOut_map m (s.noteAll _) level _

theorem reply?_map (argv : Words) :
    (s.map f g).reply? argv =
      (s.reply? argv).map (Prod.map (Except.map (Outcome.map f)) (Shell.map f g)) := by
  rw [reply?, reply?, top?_map]
  cases s.stack.top? with
  | none => rfl
  | some level =>
    simp only [Option.map_some, Level.commands_map, m.commands, Level.aliases_map]
    rcases plan (CommandSet.commands level.commands) level.aliases argv with
      ⟨_ | fault | ⟨route, inv⟩, notes⟩
    · rfl
    · rfl
    · simp only [noteAll_map]
      rw [desk_map, handlerOf_commutes m route inv]
      rcases (handlerOf route inv).run.run ((s.noteAll notes).desk level) with ⟨answer, d⟩
      simp only [Prod.map_apply, putBack_map, Option.map_some]

theorem departure?_map (argv : Words) :
    (s.map f g).departure? argv = (s.departure? argv).map (Prod.map id (Shell.map f g)) := by
  rw [departure?, departure?, reply?_map m]
  rcases s.reply? argv with _ | ⟨fault | outcome, t⟩
  · rfl
  · rfl
  · cases outcome <;> rfl

end Shell

end

end NestedShell
