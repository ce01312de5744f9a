/-
  A record of how command sets are called.

  Next to the world there may be a record of every call of a handler or hook, with all that it is
  given but the console.  Otherwise a shell with a record does what it does without one.

  * a `HookCall` is an entry of the record; `Noted` and `Notes` are command sets and worlds with one;
  * `unnoted`: forgetting the record is a morphism;
  * `Shell.recording`: a shell with a record, `inner_recording`: and forgetting it again;
  * `CommandSet.Through.noted`: the record does not reach the console.
-/
import NestedShell.Proofs.Shell.Morphism
import NestedShell.Proofs.Shell.Through

namespace NestedShell

variable {σ ω : Type}

/-! ## Calls -/

/-- A call of a command set, with all that it is given but the console. -/
inductive HookCall (σ ω : Type) where
  | run (r : Desk.Rest σ ω) (inv : Invocation)
  | unknown (r : Desk.Rest σ ω) (inv : Invocation)
  | resume (value : Value) (commands : σ) (env : Environment) (world : ω)
  | reportFault (fault : Fault) (commands : σ) (world : ω)
  | finalize (commands : σ) (world : ω)

/-! ## Command sets with a record -/

/-- A command set whose calls are recorded. -/
structure Noted (σ : Type) where
  inner : σ

/-- A world with a record of the calls of command sets, the latest first. -/
structure Notes (σ ω : Type) where
  world : ω
  calls : List (HookCall σ ω) := []

namespace Handler

/-- A handler whose call is recorded. -/
def noted (h : Handler σ ω (Outcome σ)) (call : Desk.Rest σ ω → HookCall σ ω) :
    Handler (Noted σ) (Notes σ ω) (Outcome (Noted σ)) := fun d =>
  let before := d.map Noted.inner Notes.world
  let (answer, after) := h.run.run before
  (answer.map (Outcome.map Noted.mk),
    after.map Noted.mk fun world => ⟨world, call before.rest :: d.world.calls⟩)

theorem noted_commutes (h : Handler σ ω (Outcome σ)) (call : Desk.Rest σ ω → HookCall σ ω) :
    Commutes Noted.inner Notes.world (h.noted call) h := by
  intro d
  refine Prod.ext (Eq.symm ?_) rfl
  exact Outcome.map_map_of_leftInverse (fun _ => rfl)
    (h.run.run (d.map Noted.inner Notes.world)).1

/-- On a desk with a record, the call of the handler is added. -/
theorem run_noted (h : Handler σ ω (Outcome σ)) (call : Desk.Rest σ ω → HookCall σ ω)
    (d : Desk σ ω) (calls : List (HookCall σ ω)) :
    (h.noted call).run.run (d.map Noted.mk fun world => ⟨world, calls⟩) =
      (h.run.run d).map (Except.map (Outcome.map Noted.mk))
        (Desk.map Noted.mk fun world => ⟨world, call d.rest :: calls⟩) := rfl

theorem Through.noted {h : Handler σ ω (Outcome σ)} (hh : h.Through)
    (call : Desk.Rest σ ω → HookCall σ ω) : (h.noted call).Through := by
  intro r
  let before : Desk.Rest σ ω := ⟨r.commands.inner, r.env, r.aliases, r.interrupted, r.world.world⟩
  let after (rest : Desk.Rest σ ω) : Desk.Rest (Noted σ) (Notes σ ω) :=
    ⟨⟨rest.commands⟩, rest.env, rest.aliases, rest.interrupted,
      ⟨rest.world, call before :: r.world.calls⟩⟩
  exact (hh before).map fun p => (p.1.map (Outcome.map Noted.mk), after p.2)

end Handler

/-- The calls of every command set can be recorded. -/
instance [CommandSet σ ω] : CommandSet (Noted σ) (Notes σ ω) where
  name s := CommandSet.name s.inner
  commands s := CommandSet.commands s.inner
  run inv := (CommandSet.run inv).noted (.run · inv)
  unknown inv := (CommandSet.unknown inv).noted (.unknown · inv)
  prompt s := CommandSet.prompt s.inner
  resume value s env console w :=
    let (inner, env', console, world) := CommandSet.resume value s.inner env console w.world
    (⟨inner⟩, env', console, ⟨world, .resume value s.inner env w.world :: w.calls⟩)
  reportFault fault s console w :=
    let (inner, console, world) := CommandSet.reportFault fault s.inner console w.world
    (⟨inner⟩, console, ⟨world, .reportFault fault s.inner w.world :: w.calls⟩)
  finalize s w := ⟨CommandSet.finalize s.inner w.world, .finalize s.inner w.world :: w.calls⟩

/-- **The record changes nothing.** -/
theorem unnoted [CommandSet σ ω] :
    CommandSet.Morphism (Noted.inner (σ := σ)) (Notes.world (ω := ω)) where
  commands _ := rfl
  prompt _ := rfl
  run _ := Handler.noted_commutes _ _
  unknown _ := Handler.noted_commutes _ _
  resume _ _ _ _ _ := rfl
  reportFault _ _ _ _ := rfl
  finalize _ _ := rfl

theorem CommandSet.Through.noted [CommandSet σ ω] (h : CommandSet.Through σ) :
    CommandSet.Through (Noted σ) where
  run inv := (h.run inv).noted _
  unknown inv := (h.unknown inv).noted _
  resume value s env w := by
    let call : HookCall σ ω := .resume value s.inner env w.world
    exact (h.resume value s.inner env w.world).map fun p =>
      ((⟨p.1⟩, p.2.1, ⟨p.2.2, call :: w.calls⟩) : Noted σ × Environment × Notes σ ω)
  reportFault fault s w := by
    let call : HookCall σ ω := .reportFault fault s.inner w.world
    exact (h.reportFault fault s.inner w.world).map fun p =>
      ((⟨p.1⟩, ⟨p.2, call :: w.calls⟩) : Noted σ × Notes σ ω)

/-! ## Shells with a record -/

namespace Shell

/-- The shell with a record of calls, the latest first. -/
def recording (s : Shell σ ω) (calls : List (HookCall σ ω)) : Shell (Noted σ) (Notes σ ω) :=
  s.map Noted.mk fun world => ⟨world, calls⟩

theorem inner_recording (s : Shell σ ω) (calls : List (HookCall σ ω)) :
    (s.recording calls).map Noted.inner Notes.world = s :=
  congrArg (fun stack => { s with stack })
    (Stack.map_map_of_leftInverse (f := Noted.mk) (g := Noted.inner) (fun _ => rfl) s.stack)

/-- Every shell with a record is one of these. -/
theorem recording_inner (s : Shell (Noted σ) (Notes σ ω)) :
    (s.map Noted.inner Notes.world).recording s.world.calls = s :=
  congrArg (fun stack => { s with stack })
    (Stack.map_map_of_leftInverse (f := Noted.inner) (g := Noted.mk) (fun _ => rfl) s.stack)

end Shell

end NestedShell
