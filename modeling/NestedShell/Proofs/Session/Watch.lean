/-
  Watching levels come and go.

  Every command set can be watched.  A watched level has a number, and next to the world there is a
  record of what happens to levels: which ones were entered, which command sets were told that their
  level is left, and which ones were resumed.  Otherwise a watched shell does what it does unwatched.

  * `Watched` and `Watch` are command sets and worlds under watch, `unwatch`: forgetting what was
    recorded is a morphism;
  * a `Roll` has the numbers of the levels and the record, `Roll.Step` is what may become of it;
  * `pop_step`, `dispatch_step`: leaving a level and dispatching a statement are such steps.
-/
import NestedShell.Proofs.Session.Morphism

namespace NestedShell

variable {σ ω : Type}

/-! ## Command sets under watch -/

/-- What happens to a level. -/
inductive LevelEvent where
  /-- the level is entered -/
  | start (number : Nat)
  /-- its command set is told that it is left -/
  | finish (number : Nat)
  /-- its command set is resumed with the value of the level above -/
  | resume (number : Nat) (value : Value)
deriving DecidableEq, Repr

/-- A command set under watch: the number of its level is known. -/
structure Watched (σ : Type) where
  number : Nat
  inner : σ

/-- A world under watch: what has happened to levels is known, the latest first. -/
structure Watch (ω : Type) where
  world : ω
  events : List LevelEvent := []

/-- The number of the level that is entered next. -/
def Watch.next (w : Watch ω) : Nat := w.events.length

/-- What has happened after an answer: it may enter a level. -/
def Watch.eventsAfter (w : Watch ω) : Except Fault (Outcome σ) → List LevelEvent
  | .ok (.enter _) => .start w.next :: w.events
  | _ => w.events

/-- A handler under watch.  The level that it enters gets a number. -/
def Handler.watched (h : Handler σ ω (Outcome σ)) :
    Handler (Watched σ) (Watch ω) (Outcome (Watched σ)) := fun d =>
  let (answer, e) := h.run.run (d.map Watched.inner Watch.world)
  (answer.map (Outcome.map (Watched.mk d.world.next)),
    { commands := ⟨d.commands.number, e.commands⟩
      env := e.env
      aliases := e.aliases
      console := e.console
      interrupted := e.interrupted
      world := ⟨e.world, d.world.eventsAfter answer⟩ })

/-- Every command set can be watched. -/
instance [CommandSet σ ω] : CommandSet (Watched σ) (Watch ω) where
  name s := CommandSet.name s.inner
  commands s := CommandSet.commands s.inner
  run inv := (CommandSet.run inv).watched
  unknown inv := (CommandSet.unknown inv).watched
  prompt s := CommandSet.prompt s.inner
  resume value s env console w :=
    let (inner, env, console, world) := CommandSet.resume value s.inner env console w.world
    (⟨s.number, inner⟩, env, console, ⟨world, .resume s.number value :: w.events⟩)
  reportFault fault s console w :=
    let (inner, console, world) := CommandSet.reportFault fault s.inner console w.world
    (⟨s.number, inner⟩, console, ⟨world, w.events⟩)
  finalize s w := ⟨CommandSet.finalize s.inner w.world, .finish s.number :: w.events⟩

theorem Handler.watched_commutes (h : Handler σ ω (Outcome σ)) :
    Commutes Watched.inner Watch.world h.watched h := by
  intro d
  refine Prod.ext (Eq.symm ?_) rfl
  exact Outcome.map_map_of_leftInverse (fun _ => rfl)
    (h.run.run (d.map Watched.inner Watch.world)).1

/-- **Watching changes nothing.** -/
theorem unwatch [CommandSet σ ω] :
    CommandSet.Morphism (Watched.inner (σ := σ)) (Watch.world (ω := ω)) where
  commands _ := rfl
  prompt _ := rfl
  run _ := Handler.watched_commutes _
  unknown _ := Handler.watched_commutes _
  resume _ _ _ _ _ := rfl
  reportFault _ _ _ _ := rfl
  finalize _ _ := rfl

/-! ## What a handler records -/

/-- A handler records nothing, unless it enters a level: then it records that, and the level has the
    number that is recorded. -/
inductive Handler.Records (w : Watch ω) :
    Except Fault (Outcome (Watched σ)) → List LevelEvent → Prop where
  | enter (commands : σ) :
    Records w (.ok (.enter ⟨w.next, commands⟩)) (.start w.next :: w.events)
  | stay (result : Option Value) : Records w (.ok (.stay result)) w.events
  | leave (value : Option Value) : Records w (.ok (.leave value)) w.events
  | abort : Records w (.ok .abort) w.events
  | error (fault : Fault) : Records w (.error fault) w.events

theorem Watch.records_eventsAfter (w : Watch ω) (answer : Except Fault (Outcome σ)) :
    Handler.Records w (answer.map (Outcome.map (Watched.mk w.next))) (w.eventsAfter answer) := by
  rcases answer with fault | ⟨result | commands | value | _⟩ <;> constructor

theorem Handler.watched_records (h : Handler σ ω (Outcome σ)) (d : Desk (Watched σ) (Watch ω)) :
    (h.watched.run.run d).2.commands.number = d.commands.number ∧
      Records d.world (h.watched.run.run d).1 (h.watched.run.run d).2.world.events :=
  ⟨rfl, d.world.records_eventsAfter (h.run.run (d.map Watched.inner Watch.world)).1⟩

/-- What the handlers of a watched shell keep, and what they record. -/
theorem handlerOf_records [CommandSet σ ω] (route : Route) (inv : Invocation)
    (d : Desk (Watched σ) (Watch ω)) :
    let p := (Shell.handlerOf route inv : Handler (Watched σ) (Watch ω) _).run.run d
    p.2.commands.number = d.commands.number ∧ Handler.Records d.world p.1 p.2.world.events := by
  cases route with
  | level => exact (CommandSet.run inv).watched_records d
  | unknown => exact (CommandSet.unknown inv).watched_records d
  | builtin =>
    -- such a handler does what it does on its own desk, so it enters no level
    obtain ⟨hanswers, -, hkeeps, -⟩ := Builtin.alike_run inv d d ⟨rfl, rfl, rfl, rfl⟩
    refine ⟨congrArg Watched.number hkeeps.commands, ?_⟩
    simp only [Shell.handlerOf, hkeeps.world]
    generalize ((Builtin.run inv).run.run d).1 = answer at hanswers
    cases hanswers with
    | error fault => exact .error fault
    | ok h =>
      cases h with
      | stay result => exact .stay result
      | leave value => exact .leave value

/-! ## Rolls -/

/-- The levels that are there, by their numbers, the active one first, and what has happened to
    levels, the latest first. -/
structure Roll where
  numbers : List Nat
  events : List LevelEvent
deriving DecidableEq, Repr

/-- What an act makes of a roll.  It is told by whether the act leaves the active level, and with
    which value. -/
inductive Roll.Step : Option (Option Value) → Roll → Roll → Prop where
  | stay (r : Roll) : Step none r r
  | enter (ns : List Nat) (es : List LevelEvent) :
    Step none ⟨ns, es⟩ ⟨es.length :: ns, .start es.length :: es⟩
  /-- there is no level to leave -/
  | nowhere (value : Option Value) (es : List LevelEvent) : Step (some value) ⟨[], es⟩ ⟨[], es⟩
  /-- the last level is left: there is none to take the value -/
  | last (value : Option Value) (n : Nat) (es : List LevelEvent) :
    Step (some value) ⟨[n], es⟩ ⟨[], .finish n :: es⟩
  /-- a level is left without a value -/
  | back (n m : Nat) (ns : List Nat) (es : List LevelEvent) :
    Step (some none) ⟨n :: m :: ns, es⟩ ⟨m :: ns, .finish n :: es⟩
  /-- a level is left with a value for the one below -/
  | handOver (value : Value) (n m : Nat) (ns : List Nat) (es : List LevelEvent) :
    Step (some (some value)) ⟨n :: m :: ns, es⟩ ⟨m :: ns, .resume m value :: .finish n :: es⟩

namespace Shell

/-- The numbers of the levels of a shell, and what has happened to them. -/
def roll (s : Shell (Watched σ) (Watch ω)) : Roll :=
  ⟨s.stack.levels.map (·.commands.number), s.world.events⟩

variable [CommandSet σ ω] (s : Shell (Watched σ) (Watch ω))

/-- **Leaving a level** tells its command set, and then the one below if there is a value. -/
theorem pop_step (value : Option Value) : Roll.Step (some value) s.roll (s.pop value).2.roll := by
  obtain ⟨⟨levels, exitValue⟩, console, interrupted, world⟩ := s
  rcases levels with _ | ⟨level, _ | ⟨parent, below⟩⟩
  · exact .nowhere value _
  · exact .last value _ _
  · cases value with
    | none => exact .back _ _ _ _
    | some value => exact .handOver value _ _ _ _

omit [CommandSet σ ω] in
theorem numbers_onTop (stack : Stack (Watched σ)) {f : Level (Watched σ) → Level (Watched σ)}
    (hf : ∀ l, stack.top? = some l → (f l).commands.number = l.commands.number) :
    (stack.onTop f).levels.map (·.commands.number) = stack.levels.map (·.commands.number) := by
  obtain ⟨levels, exitValue⟩ := stack
  cases levels with
  | nil => rfl
  | cons l below =>
    simp only [Stack.onTop, List.modifyHead_cons, List.map_cons]
    rw [hf l rfl]

omit [CommandSet σ ω] in
@[simp]
theorem roll_setVariable (name value : String) : (s.setVariable name value).roll = s.roll :=
  congrArg (Roll.mk · _) (numbers_onTop s.stack fun _ _ => rfl)

theorem roll_reportFault (fault : Fault) : (s.reportFault fault).roll = s.roll := by
  rw [reportFault]
  cases htop : s.stack.top? with
  | none => rfl
  | some level =>
    simp only [roll_setVariable]
    refine congrArg (Roll.mk · _) (numbers_onTop s.stack fun l hl => ?_)
    obtain rfl : level = l := Option.some.inj (htop.symm.trans hl)
    rfl

theorem roll_push (commands : Watched σ) :
    (s.push commands).roll = ⟨commands.number :: s.roll.numbers, s.roll.events⟩ := by
  rw [push]
  split <;> rfl

/-- **What the handler of a statement** keeps, and what it records. -/
theorem reply?_records {s t : Shell (Watched σ) (Watch ω)} {argv : Words}
    {answer : Except Fault (Outcome (Watched σ))} (h : s.reply? argv = some (answer, t)) :
    t.roll.numbers = s.roll.numbers ∧ Handler.Records s.world answer t.roll.events := by
  rw [reply?] at h
  split at h
  · cases h
  · rename_i level htop
    split at h
    · rename_i route inv notes _
      obtain ⟨hnumber, hrecords⟩ := handlerOf_records route inv ((s.noteAll notes).desk level)
      cases h
      refine ⟨numbers_onTop s.stack fun l hl => ?_, hrecords⟩
      obtain rfl : level = l := Option.some.inj (htop.symm.trans hl)
      exact hnumber
    · cases h

/-- When no handler is called, nothing is recorded. -/
theorem roll_of_withheld {s : Shell (Watched σ) (Watch ω)} {argv : Words}
    (h : s.reply? argv = none) : (s.dispatch argv).2.roll = s.roll := by
  cases htop : s.stack.top? with
  | none => rw [dispatch, htop]
  | some level =>
    rcases hplan : Dispatch.plan (CommandSet.commands level.commands) level.aliases argv with
      ⟨_ | fault | ⟨route, inv⟩, notes⟩
    · simp only [dispatch, htop, hplan, carryOut]
      rfl
    · simp only [dispatch, htop, hplan, carryOut, refuse, roll_setVariable]
      rfl
    · simp only [reply?, htop, hplan] at h
      split at h
      cases h

theorem roll_stay (value : Option Value) : (s.conclude (.stay value)).2.roll = s.roll := by
  cases value <;> simp only [conclude, roll_setVariable]

/-- **A statement** leaves the active level, or enters one, or does neither. -/
theorem dispatch_step (argv : Words) :
    Roll.Step ((s.departure? argv).map Prod.fst) s.roll (s.dispatch argv).2.roll := by
  rw [departure?]
  rcases hreply : s.reply? argv with _ | ⟨answer, t⟩
  · rw [roll_of_withheld hreply]
    exact .stay _
  · obtain ⟨hnumbers, hrecords⟩ := reply?_records hreply
    rcases hroll : t.roll with ⟨ns, es⟩
    simp only [hroll] at hnumbers hrecords
    subst hnumbers
    -- what was recorded so far tells how the handler answered, which tells what is done then
    cases hrecords with
    | error fault =>
      rw [dispatch_of_fault hreply, roll_reportFault, hroll]
      exact .stay _
    | stay result =>
      rw [(dispatch_of_reply hreply).2.2, roll_stay, hroll]
      exact .stay _
    | abort =>
      have hroll' : (t.conclude .abort).2.roll = t.roll := rfl
      rw [(dispatch_of_reply hreply).2.2, hroll', hroll]
      exact .stay _
    | enter commands =>
      rw [(dispatch_of_reply hreply).2.2, conclude, roll_push, hroll]
      exact .enter _ _
    | leave value =>
      have hdeparture : s.departure? argv = some (value, t) := by rw [departure?, hreply]
      rw [(dispatch_of_departure hdeparture).2]
      have hpop := t.pop_step value
      rwa [hroll] at hpop

end Shell

end NestedShell
