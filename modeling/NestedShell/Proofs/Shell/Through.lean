/-
  Handlers that use the console only by its operations.

  A handler gets the console with its desk.  What it may do with it is to call operations; so the
  rest of the desk, and the answers that it gets, tell what it does.

  * `Desk.Rest`: all of a desk but the console; `Handler.Through`: a handler that is a program of
    calls of the console; programs that are put together from such handlers are such handlers;
  * `Builtin.through_run`: the handlers of the commands that every level has are such handlers;
  * `CommandSet.Through`: a command set with such handlers and hooks, `Playground.through` is one.
-/
import NestedShell.Dispatch
import NestedShell.Playground
import NestedShell.Proofs.Console.Calls

namespace NestedShell

variable {σ ω α β : Type}

/-! ## Desks without a console -/

/-- All of a desk but the console. -/
structure Desk.Rest (σ ω : Type) where
  commands : σ
  env : Environment
  aliases : AliasTable
  interrupted : Bool
  world : ω

/-- What is on a desk besides the console. -/
def Desk.rest (d : Desk σ ω) : Desk.Rest σ ω where
  commands := d.commands
  env := d.env
  aliases := d.aliases
  interrupted := d.interrupted
  world := d.world

/-- The desk with a console. -/
def Desk.Rest.desk (r : Desk.Rest σ ω) (console : Console) : Desk σ ω where
  commands := r.commands
  env := r.env
  aliases := r.aliases
  console := console
  interrupted := r.interrupted
  world := r.world

/-! ## Handlers -/

namespace Handler

/-- What a handler makes of the console, the rest of the desk being given. -/
def outward (h : Handler σ ω α) (r : Desk.Rest σ ω) (k : Console) :
    (Except Fault α × Desk.Rest σ ω) × Console :=
  let p := h.run.run (r.desk k)
  ((p.1, p.2.rest), p.2.console)

/-- A handler that uses the console only by its operations. -/
def Through (h : Handler σ ω α) : Prop := ∀ r, Console.Through (h.outward r)

theorem through_pure (a : α) : Through (pure a : Handler σ ω α) :=
  fun r => Console.through_pure (Except.ok a, r)

theorem through_fail (fault : Fault) : Through (fail fault : Handler σ ω α) :=
  fun r => Console.through_pure (Except.error fault, r)

theorem through_lift (x : Except Fault α) : Through (liftM x : Handler σ ω α) := by
  cases x with
  | ok a => exact through_pure a
  | error fault => exact through_fail fault

/-- A change of something else than the console. -/
theorem through_modify {f : Desk σ ω → Desk σ ω} (g : Desk.Rest σ ω → Desk.Rest σ ω)
    (h : ∀ r k, f (r.desk k) = (g r).desk k) : Through (modify f : Handler σ ω Unit) := by
  intro r
  obtain ⟨p, hp⟩ := Console.through_pure ((Except.ok () : Except Fault Unit), g r)
  refine ⟨p, fun k => Eq.trans ?_ (hp k)⟩
  exact congrArg (fun d : Desk σ ω => ((_, d.rest), d.console)) (h r k)

/-- One handler after another. -/
theorem Through.bind {h : Handler σ ω α} {f : α → Handler σ ω β} (hh : Through h)
    (hf : ∀ a, Through (f a)) : Through (h >>= f) := by
  intro r
  have hnext (p : Except Fault α × Desk.Rest σ ω) : Console.Through fun k =>
      match p.1 with
      | .ok a => (f a).outward p.2 k
      | .error fault => ((Except.error fault, p.2), k) := by
    rcases p with ⟨fault | a, r'⟩
    · exact Console.through_pure (Except.error fault, r')
    · exact hf a r'
  obtain ⟨q, hq⟩ := (hh r).bind hnext
  refine ⟨q, fun k => Eq.trans ?_ (hq k)⟩
  simp only [outward, ExceptT.run_bind, StateT.run_bind]
  rcases h.run.run (r.desk k) with ⟨fault | a, d⟩ <;> rfl

/-- A handler that looks at its desk, but not at the console there. -/
theorem Through.get {f : Desk σ ω → Handler σ ω α} (hf : ∀ d, Through (f d))
    (hrest : ∀ d k, f { d with console := k } = f d) : Through (get >>= f) := by
  intro r
  let k₀ : Console := .new .plain {} {} {}
  obtain ⟨p, hp⟩ := hf (r.desk k₀) r
  refine ⟨p, fun k => Eq.trans ?_ (hp k)⟩
  have hsame : f (r.desk k) = f (r.desk k₀) := (hrest (r.desk k) k₀).symm
  change (f (r.desk k)).outward r k = _
  rw [hsame]

/-- Calls of the console, which may depend on the rest of the desk. -/
theorem through_console {f : Desk σ ω → Console → Console}
    (hf : ∀ d, Console.Through fun k => ((), f d k)) (hrest : ∀ d k, f { d with console := k } = f d) :
    Through (modify fun d => { d with console := f d d.console } : Handler σ ω Unit) := by
  intro r
  let k₀ : Console := .new .plain {} {} {}
  obtain ⟨p, hp⟩ := (hf (r.desk k₀)).map fun u => (Except.ok u, r)
  refine ⟨p, fun k => Eq.trans ?_ (hp k)⟩
  exact congrArg (fun g : Console → Console => ((_, r), g k)) (hrest (r.desk k) k₀).symm

/-! ## Small handlers -/

theorem through_write (text : String) : Through (write text : Handler σ ω Unit) :=
  through_console (fun _ => Console.through_call (.write text)) fun _ _ => rfl

theorem through_print (text : String) : Through (print text : Handler σ ω Unit) :=
  through_console (fun _ => Console.through_call (.print text)) fun _ _ => rfl

theorem through_error (text : String) : Through (error text : Handler σ ω Unit) :=
  through_console (fun _ => Console.through_call (.error text)) fun _ _ => rfl

theorem through_printf (template : String) : Through (printf template : Handler σ ω Unit) :=
  through_console (fun d => Console.through_call (.printf d.env.lookup template)) fun _ _ => rfl

theorem through_printDoc (doc : String) : Through (printDoc doc : Handler σ ω Unit) :=
  through_console (f := fun d k => k.printDoc d.env.lookup doc)
    (fun d => Console.through_call (.printDoc d.env.lookup doc)) fun _ _ => rfl

theorem through_onEnv (f : Environment → Environment) : Through (onEnv f : Handler σ ω Unit) :=
  through_modify (fun r => { r with env := f r.env }) fun _ _ => rfl

theorem through_setAliases (f : AliasTable → AliasTable) :
    Through (modify fun d => { d with aliases := f d.aliases } : Handler σ ω Unit) :=
  through_modify (fun r => { r with aliases := f r.aliases }) fun _ _ => rfl

theorem through_reportUnknown (inv : Invocation) :
    Through (reportUnknown inv : Handler σ ω (Outcome σ)) := by
  simp only [reportUnknown]
  cases inv.suggestion? <;> exact (through_error _).bind fun _ => through_pure _

end Handler

/-! ## The commands that every level has -/

namespace Builtin

open Handler

theorem through_explain (inv : Invocation) (names : List String) :
    Through (explain inv names : Handler σ ω Bool) := by
  induction names with
  | nil => exact through_pure _
  | cons name names ih =>
    rw [explain]
    cases inv.find? name with
    | some info => exact (through_printDoc _).bind fun _ => ih
    | none => exact (through_error _).bind fun _ => ih.bind fun _ => through_pure _

theorem through_printAll (lines : List String) : Through (printAll lines : Handler σ ω Unit) := by
  induction lines with
  | nil => exact through_pure _
  | cons line lines ih =>
    rw [printAll]
    exact (through_print _).bind fun _ => ih

theorem through_showHelp (inv : Invocation) :
    Through (showHelp inv : Handler σ ω (Outcome σ)) := by
  simp only [showHelp]
  split
  · exact (through_write _).bind fun _ => through_pure _
  · exact (through_explain inv _).bind fun _ => through_pure _

theorem through_editAliases (inv : Invocation) :
    Through (editAliases inv : Handler σ ω (Outcome σ)) := by
  simp only [editAliases]
  refine .get (fun d => ?_) fun _ _ => rfl
  split
  · exact (through_printAll _).bind fun _ => through_pure _
  · refine (through_lift _).bind fun definition => ?_
    cases definition with
    | some p =>
      exact (through_lift _).bind fun aliases =>
        (through_setAliases fun _ => aliases).bind fun _ => through_pure _
    | none =>
      dsimp only
      split
      · cases d.aliases.describe? _ with
        | some line => exact (through_print _).bind fun _ => through_pure _
        | none => exact (through_error _).bind fun _ => through_pure _
      · exact through_fail _

theorem through_removeAlias (inv : Invocation) :
    Through (removeAlias inv : Handler σ ω (Outcome σ)) := by
  simp only [removeAlias]
  refine .get (fun d => ?_) fun _ _ => rfl
  split
  · exact (through_setAliases fun _ => _).bind fun _ => through_pure _
  · exact (through_error _).bind fun _ => through_pure _

theorem through_showVariable (name : String) :
    Through (showVariable name : Handler σ ω (Outcome σ)) := by
  simp only [showVariable]
  refine .get (fun d => ?_) fun _ _ => rfl
  cases d.env.get? name with
  | some value => exact (through_print _).bind fun _ => through_pure _
  | none => exact through_pure _

theorem through_editVariables (inv : Invocation) :
    Through (editVariables inv : Handler σ ω (Outcome σ)) := by
  simp only [editVariables]
  cases inv.args.get? "<name>" with
  | none =>
    refine .get (fun d => ?_) fun _ _ => rfl
    exact (through_printAll _).bind fun _ => through_pure _
  | some name =>
    dsimp only
    split
    · exact through_showVariable name
    · exact (through_onEnv _).bind fun _ => through_pure _

theorem through_printVariables (inv : Invocation) :
    Through (printVariables inv : Handler σ ω (Outcome σ)) := by
  simp only [printVariables]
  cases inv.args.get? "<name>" with
  | some name => exact through_showVariable name
  | none =>
    refine .get (fun d => ?_) fun _ _ => rfl
    exact (through_printAll _).bind fun _ => through_pure _

/-- **The commands that every level has** use the console only by its operations. -/
theorem through_run (inv : Invocation) : Through (run inv : Handler σ ω (Outcome σ)) := by
  simp only [run]
  split
  · exact through_showHelp inv
  · exact through_editAliases inv
  · exact through_removeAlias inv
  · exact through_pure _
  · exact through_editVariables inv
  · exact (through_onEnv _).bind fun _ => through_pure _
  · exact through_printVariables inv
  · exact (through_printf _).bind fun _ => through_pure _
  · exact through_fail _

end Builtin

/-! ## Command sets -/

/-- A command set whose handlers and hooks use the console only by its operations. -/
structure CommandSet.Through (σ : Type) {ω : Type} [CommandSet σ ω] : Prop where
  run : ∀ inv, Handler.Through (CommandSet.run inv : Handler σ ω (Outcome σ))
  unknown : ∀ inv, Handler.Through (CommandSet.unknown inv : Handler σ ω (Outcome σ))
  resume : ∀ (value : Value) (s : σ) (env : Environment) (world : ω), Console.Through fun k =>
    let (s, env, k, world) := CommandSet.resume value s env k world
    ((s, env, world), k)
  reportFault : ∀ (fault : Fault) (s : σ) (world : ω), Console.Through fun k =>
    let (s, k, world) := CommandSet.reportFault fault s k world
    ((s, world), k)

namespace Playground

open Handler

theorem through_sleep (inv : Invocation) :
    Through (sleep inv : Handler σ World (Outcome Playground)) := by
  simp only [sleep]
  cases Number.nanoseconds? _ with
  | none => exact through_fail _
  | some time =>
    refine .get (fun d => ?_) fun _ _ => rfl
    split
    · exact through_pure _
    · refine (through_modify (fun r => { r with world := r.world.wait time }) fun _ _ => rfl).bind ?_
      exact fun _ => through_pure _

theorem through_perform (p : Playground) (inv : Invocation) :
    Through (p.perform inv : Handler σ World (Outcome Playground)) := by
  simp only [perform]
  split
  · exact through_pure _
  · exact (through_lift _).bind fun _ => (through_print _).bind fun _ => through_pure _
  · exact through_sleep inv
  · exact through_fail _
  · exact (through_print _).bind fun _ => through_pure _
  · exact through_fail _

/-- **The playground** uses the console only by its operations. -/
theorem through : CommandSet.Through Playground where
  run inv := .get (fun d => through_perform d.commands inv) fun _ _ => rfl
  unknown inv := through_reportUnknown inv
  resume value p env world :=
    (Console.through_call (.print _)).map fun _ =>
      (p, (env.set statusVariable (Number.showInt64 value.status)).set lastVariable value.shown,
        world)
  reportFault fault p world :=
    (Console.through_call (.error fault.summary)).map fun _ => (p, world)

end Playground

end NestedShell
