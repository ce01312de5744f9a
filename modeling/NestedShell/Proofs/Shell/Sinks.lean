/-
  Shells whose sinks fail.

  When the handlers and hooks of the command sets use the console only by its operations, a shell
  does the same whether its sinks take what is written or not.

  * `Shell.Matches`: two shells that are equal up to some sinks, and to what is noted about these;
  * `Matches.pop`, `Matches.push`: they still are after levels are left and entered;
  * `Matches.dispatch`: so they are after a statement, which has the same result.
-/
import NestedShell.Proofs.Shell.Through

namespace NestedShell

variable {σ ω : Type}

/-- Two shells that are equal up to some sinks, and to what is noted about these. -/
structure Shell.Matches (broken : OutputStream → Bool) (s s' : Shell σ ω) : Prop where
  stack : s.stack = s'.stack
  console : s.console.Matches broken s'.console
  interrupted : s.interrupted = s'.interrupted
  world : s.world = s'.world

theorem Shell.through_handlerOf [CommandSet σ ω] (hσ : CommandSet.Through σ) (route : Route)
    (inv : Invocation) : Handler.Through (handlerOf route inv : Handler σ ω (Outcome σ)) := by
  cases route with
  | level => exact hσ.run inv
  | builtin => exact Builtin.through_run inv
  | unknown => exact hσ.unknown inv

namespace Shell.Matches

variable {broken : OutputStream → Bool} {s s' : Shell σ ω}

theorem refl (broken : OutputStream → Bool) (s : Shell σ ω) : s.Matches broken s :=
  ⟨rfl, .refl broken _, rfl, rfl⟩

variable (h : s.Matches broken s')
include h

theorem setVariable (name value : String) :
    (s.setVariable name value).Matches broken (s'.setVariable name value) :=
  { h with stack := by simp only [Shell.setVariable, h.stack] }

theorem refuse (fault : Fault) : (s.refuse fault).Matches broken (s'.refuse fault) :=
  { h with
    stack := by simp only [Shell.refuse, Shell.setVariable, h.stack]
    console := h.console.warning _ }

theorem noteAll (notes : List LogEntry) : (s.noteAll notes).Matches broken (s'.noteAll notes) := by
  refine { h with console := ?_ }
  have hconsole := h.console
  simp only [Shell.noteAll]
  generalize s.console = k at hconsole ⊢
  generalize s'.console = k' at hconsole ⊢
  induction notes generalizing k k' with
  | nil => exact hconsole
  | cons entry notes ih => exact ih _ _ (hconsole.note entry)

/-- **A handler** has the same answer, and so has the rest of its desk, which is put back. -/
theorem putBack {α : Type} {handler : Handler σ ω α} (hthrough : handler.Through)
    (level : Level σ) :
    (handler.run.run (s.desk level)).1 = (handler.run.run (s'.desk level)).1 ∧
      (s.putBack (handler.run.run (s.desk level)).2).Matches broken
        (s'.putBack (handler.run.run (s'.desk level)).2) := by
  obtain ⟨stack, console, interrupted, world⟩ := s
  obtain ⟨stack', console', interrupted', world'⟩ := s'
  obtain ⟨rfl, hconsole, rfl, rfl⟩ := h
  obtain ⟨hsame, hnext⟩ :=
    (hthrough ⟨level.commands, level.env, level.aliases, interrupted, world⟩).matches hconsole
  obtain ⟨hanswer, hrest⟩ := Prod.mk.inj hsame
  refine ⟨hanswer, ⟨?_, hnext, congrArg (·.interrupted) hrest, congrArg (·.world) hrest⟩⟩
  exact congrArg (fun r : Desk.Rest σ ω => stack.onTop fun level =>
    { level with commands := r.commands, env := r.env, aliases := r.aliases }) hrest

section
variable [CommandSet σ ω]

theorem enter (commands : σ) (env : Environment) (aliases : AliasTable) (bottom : Bool) :
    (s.enter commands env aliases bottom).Matches broken
      (s'.enter commands env aliases bottom) :=
  { h with stack := by simp only [Shell.enter, Shell.nextDepth, h.stack] }

/-- **Entering a level.** -/
theorem push (commands : σ) : (s.push commands).Matches broken (s'.push commands) := by
  rw [Shell.push, Shell.push, ← h.stack]
  cases s.stack.top? <;> exact h.enter ..

variable (hσ : CommandSet.Through σ)
include hσ

/-- **Leaving a level.** -/
theorem pop (value : Option Value) :
    (s.pop value).1 = (s'.pop value).1 ∧ (s.pop value).2.Matches broken (s'.pop value).2 := by
  obtain ⟨⟨levels, exitValue⟩, console, interrupted, world⟩ := s
  obtain ⟨stack', console', interrupted', world'⟩ := s'
  obtain ⟨rfl, hconsole, rfl, rfl⟩ := h
  rcases levels with _ | ⟨level, _ | ⟨parent, below⟩⟩
  · exact ⟨rfl, rfl, hconsole, rfl, rfl⟩
  · exact ⟨rfl, rfl, hconsole, rfl, rfl⟩
  · cases value with
    | none => exact ⟨rfl, rfl, hconsole, rfl, rfl⟩
    | some value =>
      obtain ⟨hsame, hnext⟩ := (hσ.resume value parent.commands parent.env
        (CommandSet.finalize level.commands world)).matches hconsole
      refine ⟨rfl, ?_, hnext, rfl, congrArg (·.2.2) hsame⟩
      exact congrArg (fun p : σ × Environment × ω =>
        (⟨{ parent with commands := p.1, env := p.2.1 } :: below, exitValue⟩ : Stack σ)) hsame

/-- **Reporting a fault.** -/
theorem reportFault (fault : Fault) :
    (s.reportFault fault).Matches broken (s'.reportFault fault) := by
  obtain ⟨stack, console, interrupted, world⟩ := s
  obtain ⟨stack', console', interrupted', world'⟩ := s'
  obtain ⟨rfl, hconsole, rfl, rfl⟩ := h
  simp only [Shell.reportFault]
  cases stack.top? with
  | none => exact ⟨rfl, hconsole, rfl, rfl⟩
  | some level =>
    obtain ⟨hsame, hnext⟩ := (hσ.reportFault fault level.commands world).matches hconsole
    refine Matches.setVariable ?_ statusVariable "1"
    refine ⟨?_, hnext, rfl, congrArg (·.2) hsame⟩
    exact congrArg (fun p : σ × ω => stack.onTop fun level => { level with commands := p.1 }) hsame

/-! ## Statements -/

/-- **What a handler asks for.** -/
theorem conclude (outcome : Outcome σ) :
    (s.conclude outcome).1 = (s'.conclude outcome).1 ∧
      (s.conclude outcome).2.Matches broken (s'.conclude outcome).2 := by
  cases outcome with
  | stay value =>
    cases value with
    | none => exact ⟨rfl, h.setVariable ..⟩
    | some value => exact ⟨rfl, (h.setVariable ..).setVariable ..⟩
  | enter commands =>
    refine ⟨?_, h.push commands⟩
    simp only [Shell.conclude, Shell.nextDepth, h.stack]
  | leave value =>
    obtain ⟨hsame, hnext⟩ := h.pop hσ value
    simp only [Shell.conclude]
    generalize s.pop value = p at hsame hnext ⊢
    generalize s'.pop value = p' at hsame hnext ⊢
    obtain ⟨result, t⟩ := p
    obtain ⟨result', t'⟩ := p'
    obtain rfl : result = result' := hsame
    cases result <;> exact ⟨rfl, hnext⟩
  | abort => exact ⟨rfl, h.stack, h.console.write _, rfl, h.world⟩

/-- **What is planned** has the same result. -/
theorem carryOut (level : Level σ) (plan : Plan) :
    (s.carryOut level plan).1 = (s'.carryOut level plan).1 ∧
      (s.carryOut level plan).2.Matches broken (s'.carryOut level plan).2 := by
  cases plan with
  | skip => exact ⟨rfl, h⟩
  | refuse fault => exact ⟨rfl, h.refuse fault⟩
  | call route inv =>
    obtain ⟨hanswer, hnext⟩ := h.putBack (through_handlerOf hσ route inv) level
    simp only [Shell.carryOut]
    generalize (handlerOf route inv).run.run (s.desk level) = p at hanswer hnext ⊢
    generalize (handlerOf route inv).run.run (s'.desk level) = p' at hanswer hnext ⊢
    obtain ⟨answer, d⟩ := p
    obtain ⟨answer', d'⟩ := p'
    obtain rfl : answer = answer' := hanswer
    cases answer with
    | error fault => exact ⟨rfl, hnext.reportFault hσ fault⟩
    | ok outcome => exact hnext.conclude hσ outcome

/-- **A statement** has the same result, and the shells still match. -/
theorem dispatch (argv : Words) :
    (s.dispatch argv).1 = (s'.dispatch argv).1 ∧
      (s.dispatch argv).2.Matches broken (s'.dispatch argv).2 := by
  rw [Shell.dispatch, Shell.dispatch, ← h.stack]
  cases s.stack.top? with
  | none => exact ⟨rfl, h⟩
  | some level => exact (h.noteAll _).carryOut hσ level _

end

end Shell.Matches

end NestedShell
