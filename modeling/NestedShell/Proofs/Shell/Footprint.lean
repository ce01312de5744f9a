/-
  What a dispatch writes.

  A statement is skipped, or refused before a handler is called; else its handler answers, and what
  the handler did stays done.  Each of these ways to end sets at most the status and the last result
  of the active level.

  * `Shell.Writes`: some variables of the active level are set, and nothing else is changed;
    `writes_setVariable`, `Writes.trans`;
  * `Shell.hookCalls` are the calls of handlers and hooks while a statement is dispatched;
    `hookCalls_of_call`: first the handler is called, then what its answer asks for;
  * `Shell.Leaves` says what a statement leaves behind, one case for each way to end, and
    `leaves_dispatch` that it does;
  * `exitStatus_of_writes`: a status that was set is the one that a session exits with.
-/
import NestedShell.Session
import NestedShell.Proofs.Shell.Calls
import NestedShell.Proofs.Shell.Noted
import NestedShell.Proofs.Text.Cut

namespace NestedShell

variable {σ ω : Type}

/-! ## Writing variables -/

/-- A level is as before, but for some variables that were set. -/
structure Level.Writes (vars : List (String × String)) (l l' : Level σ) : Prop where
  commands : l'.commands = l.commands
  aliases : l'.aliases = l.aliases
  depth : l'.depth = l.depth
  scopes : l'.scopes = l.scopes
  env : ∀ name, l'.env.get? name = (vars.lookup name).or (l.env.get? name)

namespace Shell

/-- A shell is as before, but for some variables of the active level that were set. -/
structure Writes (vars : List (String × String)) (s u : Shell σ ω) : Prop where
  levels : ∃ level level' below, s.stack.levels = level :: below ∧
    u.stack.levels = level' :: below ∧ level.Writes vars level'
  exitValue : u.stack.exitValue = s.stack.exitValue
  console : u.console = s.console
  interrupted : u.interrupted = s.interrupted
  world : u.world = s.world

theorem Writes.exists_top {s u : Shell σ ω} {vars : List (String × String)} (h : Writes vars s u) :
    ∃ level, u.stack.top? = some level := by
  obtain ⟨_, level, below, -, hlevels, -⟩ := h.levels
  exact ⟨level, by rw [Stack.top?, hlevels, List.head?_cons]⟩

theorem Writes.trans {s u v : Shell σ ω} {vars more : List (String × String)}
    (h : Writes vars s u) (h' : Writes more u v) : Writes (more ++ vars) s v := by
  obtain ⟨level, level', below, hs, hu, hlevel⟩ := h.levels
  obtain ⟨level'', last, below', hu', hv, hlast⟩ := h'.levels
  rw [hu] at hu'
  cases hu'
  refine ⟨⟨level, last, below, hs, hv, ?_⟩, h'.exitValue.trans h.exitValue,
    h'.console.trans h.console, h'.interrupted.trans h.interrupted, h'.world.trans h.world⟩
  refine ⟨hlast.commands.trans hlevel.commands, hlast.aliases.trans hlevel.aliases,
    hlast.depth.trans hlevel.depth, hlast.scopes.trans hlevel.scopes, fun name => ?_⟩
  rw [hlast.env, hlevel.env, List.lookup_append, Option.or_assoc]

theorem writes_setVariable {s : Shell σ ω} {level : Level σ} (h : s.stack.top? = some level)
    (name value : String) : Writes [(name, value)] s (s.setVariable name value) := by
  obtain ⟨below, hlevels⟩ := Stack.exists_levels h
  refine ⟨⟨level, { level with env := level.env.set name value }, below, hlevels, ?_, ?_⟩,
    rfl, rfl, rfl, rfl⟩
  · simp only [setVariable, Stack.onTop, hlevels, List.modifyHead_cons]
  · refine ⟨rfl, rfl, rfl, rfl, fun other => ?_⟩
    rw [Environment.get?_set, List.lookup_cons, List.lookup_nil]
    by_cases hname : name = other
    · simp [hname]
    · have hne : (other == name) = false := beq_eq_false_iff_ne.2 (Ne.symm hname)
      simp [hname, hne]

end Shell

/-! ## The status of a session -/

theorem Text.isBlank_eq_false_of_isDigit {c : Char} (h : c.isDigit = true) : isBlank c = false := by
  have hrange : 48 ≤ c.toNat ∧ c.toNat ≤ 57 := by
    simpa [Char.isDigit, UInt32.le_iff_toNat_le] using h
  by_contra hblank
  rw [Bool.not_eq_false, isBlank, List.any_eq_true] at hblank
  obtain ⟨r, hr, hin⟩ := hblank
  simp only [Bool.and_eq_true, decide_eq_true_eq] at hin
  simp only [blankRanges, List.mem_cons, List.not_mem_nil, or_false] at hr
  rcases hr with rfl | rfl | rfl | rfl | rfl | rfl | rfl | rfl | rfl | rfl <;> omega

/-- What is written for an integer has no blanks. -/
theorem Number.trim_showInt64 (n : Int64) : Text.trim (showInt64 n) = showInt64 n := by
  have hdigits : ∀ c ∈ (Nat.repr n.toInt.natAbs).toList, Text.isBlank c = false := by
    intro c hc
    rw [Nat.repr_eq_ofList_toDigits, String.toList_ofList] at hc
    exact Text.isBlank_eq_false_of_isDigit (Nat.isDigit_of_mem_toDigits (by omega) (by omega) hc)
  refine Text.trim_eq_self fun c hc => ?_
  rw [showInt64, showInteger] at hc
  split at hc
  · rw [String.toList_append, List.mem_append] at hc
    rcases hc with hc | hc
    · obtain rfl : c = '-' := by simpa using hc
      decide
    · exact hdigits c hc
  · exact hdigits c hc

/-- **A status that was set is read back**, for every integer of 64 bits. -/
theorem exitStatus_of_writes {vars : List (String × String)} {s u : Shell σ ω}
    (h : Shell.Writes vars s u) {n : Int64}
    (hn : vars.lookup statusVariable = some (Number.showInt64 n)) (t : Session σ ω) :
    { t with shell := u }.exitStatus = n := by
  obtain ⟨level, level', below, -, hu, hlevel⟩ := h.levels
  have htop : u.stack.top? = some level' := by rw [Stack.top?, hu, List.head?_cons]
  have hget : level'.env.get? statusVariable = some (Number.showInt64 n) := by
    rw [hlevel.env, hn, Option.some_or]
  simp only [Session.exitStatus, htop, Environment.int?, hget, Option.bind_some,
    Number.trim_showInt64, Number.int64?_showInt64, Option.getD_some]

/-! ## Recorded calls -/

/-- The call of the handler, as it is recorded: a builtin is no command set. -/
def Call.record (c : Call σ ω) : List (HookCall σ ω) :=
  match c.route with
  | .level => [.run c.desk.rest c.inv]
  | .unknown => [.unknown c.desk.rest c.inv]
  | .builtin => []

/-- The same call, at a desk with a record of calls. -/
def Call.recording (c : Call σ ω) (calls : List (HookCall σ ω)) : Call (Noted σ) (Notes σ ω) where
  route := c.route
  inv := c.inv
  desk := c.desk.map Noted.mk fun world => ⟨world, calls⟩

namespace Shell

variable [CommandSet σ ω]

/-- Dispatching with a record does the same. -/
theorem inner_dispatch (s : Shell σ ω) (calls : List (HookCall σ ω)) (argv : Words) :
    ((s.recording calls).dispatch argv).map id (Shell.map Noted.inner Notes.world) =
      s.dispatch argv := by
  rw [← dispatch_map unnoted, inner_recording]

/-- How command sets are called while a statement is dispatched, in order. -/
def hookCalls (s : Shell σ ω) (argv : Words) : List (HookCall σ ω) :=
  ((s.recording []).dispatch argv).2.world.calls.reverse

theorem call?_recording (s : Shell σ ω) (calls : List (HookCall σ ω)) (argv : Words) :
    (s.recording calls).call? argv = (s.call? argv).map fun c => c.recording calls := by
  rw [call?, call?, recording, top?_map]
  cases s.stack.top? with
  | none => rfl
  | some level =>
    have hcommands : CommandSet.commands (Noted.mk level.commands) =
        CommandSet.commands level.commands := rfl
    simp only [Option.map_some, Level.commands_map, Level.aliases_map, hcommands]
    rcases Dispatch.plan (CommandSet.commands level.commands) level.aliases argv with
      ⟨_ | fault | ⟨route, inv⟩, notes⟩ <;> rfl

/-- The record of a call is that of its handler. -/
theorem run_recording (c : Call σ ω) (calls : List (HookCall σ ω)) :
    (c.recording calls).handler.run.run (c.recording calls).desk =
      (c.handler.run.run c.desk).map (Except.map (Outcome.map Noted.mk))
        (Desk.map Noted.mk fun world => ⟨world, c.record ++ calls⟩) := by
  obtain ⟨route, inv, desk⟩ := c
  cases route with
  | level => exact (CommandSet.run inv).run_noted (.run · inv) desk calls
  | unknown => exact (CommandSet.unknown inv).run_noted (.unknown · inv) desk calls
  | builtin => exact (Builtin.alike_run inv).commutes Noted.mk (Notes.mk · calls) desk

theorem reply_recording (s : Shell σ ω) (c : Call σ ω) (calls : List (HookCall σ ω)) :
    (c.recording calls).reply (s.recording calls) =
      (c.reply s).map (Except.map (Outcome.map Noted.mk)) (·.recording (c.record ++ calls)) := by
  simp only [Call.reply, run_recording]
  rcases c.handler.run.run c.desk with ⟨answer, d⟩
  exact congrArg (Prod.mk _) (putBack_map Noted.mk (Notes.mk · (c.record ++ calls)) s d)

/-- How command sets are called after a handler has answered. -/
def hooksAfter (t : Shell σ ω) : Except Fault (Outcome σ) → List (HookCall σ ω)
  | .error fault =>
    t.stack.top?.toList.map fun level => .reportFault fault level.commands t.world
  | .ok (.leave value) =>
    match t.stack.levels with
    | [] => []
    | [level] => [.finalize level.commands t.world]
    | level :: parent :: _ =>
      let world := CommandSet.finalize level.commands t.world
      .finalize level.commands t.world ::
        value.toList.map (.resume · parent.commands parent.env world)
  | .ok (.stay _) | .ok (.enter _) | .ok .abort => []

theorem calls_settle (t : Shell σ ω) (calls : List (HookCall σ ω))
    (answer : Except Fault (Outcome σ)) :
    ((t.recording calls).settle (answer.map (Outcome.map Noted.mk))).2.world.calls =
      (t.hooksAfter answer).reverse ++ calls := by
  obtain ⟨⟨levels, exitValue⟩, console, interrupted, world⟩ := t
  rcases answer with fault | result | commands | value | _
  · cases levels <;> rfl
  · cases result <;> rfl
  · cases levels <;> rfl
  · rcases levels with _ | ⟨level, _ | ⟨parent, below⟩⟩ <;> cases value <;> rfl
  · rfl

/-- **How command sets are called** when a handler is: first the handler, and then the hooks that
    its answer asks for. -/
theorem calls_dispatch_of_call {s : Shell σ ω} {argv : Words} {c : Call σ ω}
    (h : s.call? argv = some c) (calls : List (HookCall σ ω)) :
    ((s.recording calls).dispatch argv).2.world.calls =
      ((c.reply s).2.hooksAfter (c.reply s).1).reverse ++ (c.record ++ calls) := by
  have hcall : (s.recording calls).call? argv = some (c.recording calls) := by
    rw [call?_recording, h, Option.map_some]
  rw [dispatch_of_call hcall, reply_recording, Prod.map_fst, Prod.map_snd, calls_settle]

theorem hookCalls_of_call {s : Shell σ ω} {argv : Words} {c : Call σ ω}
    (h : s.call? argv = some c) :
    s.hookCalls argv = c.record ++ (c.reply s).2.hooksAfter (c.reply s).1 := by
  have hrecord : c.record.reverse = c.record := by
    rw [Call.record]
    cases c.route <;> rfl
  rw [hookCalls, calls_dispatch_of_call h, List.reverse_append, List.reverse_reverse,
    List.append_nil, hrecord]

/-- A statement that calls no handler leaves the world alone. -/
theorem world_of_none {s : Shell σ ω} {argv : Words} (h : s.call? argv = none) :
    (s.dispatch argv).2.world = s.world := by
  have huncalled := dispatch_of_none h
  generalize s.dispatch argv = p at huncalled ⊢
  cases huncalled <;> rfl

theorem calls_dispatch_of_none {s : Shell σ ω} {argv : Words} (h : s.call? argv = none)
    (calls : List (HookCall σ ω)) : ((s.recording calls).dispatch argv).2.world.calls = calls := by
  have hcall : (s.recording calls).call? argv = none := by
    rw [call?_recording, h, Option.map_none]
  rw [world_of_none hcall]
  rfl

theorem hookCalls_of_none {s : Shell σ ω} {argv : Words} (h : s.call? argv = none) :
    s.hookCalls argv = [] := by
  rw [hookCalls, calls_dispatch_of_none h, List.reverse_nil]

/-- **A record goes on** with the calls of a statement, whatever it holds. -/
theorem calls_dispatch (s : Shell σ ω) (calls : List (HookCall σ ω)) (argv : Words) :
    ((s.recording calls).dispatch argv).2.world.calls = (s.hookCalls argv).reverse ++ calls := by
  rw [hookCalls, List.reverse_reverse]
  cases h : s.call? argv with
  | none => simp only [calls_dispatch_of_none h, List.nil_append]
  | some c => simp only [calls_dispatch_of_call h, List.append_nil, List.append_assoc]

/-! ## What a statement leaves behind -/

/-- The shell after the command set of the active level has been told of a fault. -/
def told (t : Shell σ ω) (level : Level σ) (fault : Fault) : Shell σ ω :=
  let (commands, console, world) :=
    CommandSet.reportFault fault level.commands t.console t.world
  { t with
    stack := t.stack.onTop fun level => { level with commands }
    console
    world }

/-- What the answer of a handler leaves behind, in a shell as the handler leaves it: the hooks that
    are called, what is reported, the status that is set if one is, and the shell. -/
inductive Ends (t : Shell σ ω) : Except Fault (Outcome σ) → List (HookCall σ ω) → Dispatch →
    Option Int64 → Shell σ ω → Prop where
  | failed {fault : Fault} {level : Level σ} {u : Shell σ ω} (htop : t.stack.top? = some level)
      (hwrites : Writes [(statusVariable, "1")] (t.told level fault) u) :
    Ends t (.error fault) [.reportFault fault level.commands t.world] .failed (some 1) u
  | completed {u : Shell σ ω} (hwrites : Writes [(statusVariable, "0")] t u) :
    Ends t (.ok (.stay none)) [] .completed (some 0) u
  | valued {value : Value} {u : Shell σ ω}
      (hwrites : Writes
        [(lastVariable, value.shown), (statusVariable, Number.showInt64 value.status)] t u) :
    Ends t (.ok (.stay (some value))) [] .completed (some value.status) u
  /-- a level is started, with the status and the last result of the one below -/
  | entered {commands : σ} {parent child : Level σ} {below : List (Level σ)}
      (hlevels : t.stack.levels = parent :: below) (hinherits : child.Inherits parent commands)
      (hstatus : child.env.get? statusVariable = parent.env.get? statusVariable)
      (hlast : child.env.get? lastVariable = parent.env.get? lastVariable) :
    Ends t (.ok (.enter commands)) [] (.entered (below.length + 2)) none
      { t with stack.levels := child :: parent :: below }
  /-- the level is left without a value -/
  | exited {level parent : Level σ} {below : List (Level σ)}
      (hlevels : t.stack.levels = level :: parent :: below) :
    Ends t (.ok (.leave none)) [.finalize level.commands t.world] (.exited (below.length + 1)) none
      { t with stack.levels := parent :: below, world := CommandSet.finalize level.commands t.world }
  /-- the level is left with a value, and the one below is resumed with it -/
  | resumed {value : Value} {level parent : Level σ} {below : List (Level σ)} {commands : σ}
      {env : Environment} {console : Console} {world world' : ω}
      (hlevels : t.stack.levels = level :: parent :: below)
      (hfinalize : CommandSet.finalize level.commands t.world = world)
      (hresume : CommandSet.resume value parent.commands parent.env t.console world =
        (commands, env, console, world')) :
    Ends t (.ok (.leave (some value)))
      [.finalize level.commands t.world, .resume value parent.commands parent.env world]
      (.exited (below.length + 1)) none
      { t with
        stack.levels := { parent with commands, env } :: below
        console
        world := world' }
  /-- the last level is left -/
  | ended {value : Option Value} {level : Level σ} (hlevels : t.stack.levels = [level]) :
    Ends t (.ok (.leave value)) [.finalize level.commands t.world] .ended none
      { t with
        stack := { levels := [], exitValue := value }
        world := CommandSet.finalize level.commands t.world }
  | aborted :
    Ends t (.ok .abort) [] .aborted none
      { t with console := t.console.write "\n", interrupted := false }

section
variable {t : Shell σ ω}

theorem ends_fault {level : Level σ} (htop : t.stack.top? = some level) (fault : Fault) :
    t.Ends (.error fault) [.reportFault fault level.commands t.world] .failed (some 1)
      (t.reportFault fault) := by
  have hreport : t.reportFault fault = (t.told level fault).setVariable statusVariable "1" := by
    simp only [reportFault, htop]
    rfl
  obtain ⟨below, hlevels⟩ := Stack.exists_levels htop
  have htold : (t.told level fault).stack.top? = some { level with
      commands := (CommandSet.reportFault fault level.commands t.console t.world).1 } := by
    simp only [told, Stack.onTop, Stack.top?, hlevels, List.modifyHead_cons, List.head?_cons]
  rw [hreport]
  exact .failed htop (writes_setVariable htold _ _)

theorem ends_value {level : Level σ} (htop : t.stack.top? = some level) (value : Value) :
    t.Ends (.ok (.stay (some value))) [] .completed (some value.status)
      (t.conclude (.stay (some value))).2 := by
  have hstatus := writes_setVariable htop statusVariable (Number.showInt64 value.status)
  obtain ⟨level', htop'⟩ := hstatus.exists_top
  exact .valued (hstatus.trans (writes_setVariable htop' lastVariable value.shown))

/-- **Entering a level** adds it on top, and changes nothing else. -/
theorem ends_enter {parent : Level σ} {below : List (Level σ)}
    (hlevels : t.stack.levels = parent :: below) (commands : σ) :
    t.Ends (.ok (.enter commands)) [] (.entered t.nextDepth) none (t.push commands) := by
  obtain ⟨child, hpushed, -, hinherits⟩ := levels_push hlevels commands
  have hpush : t.push commands = { t with stack.levels := child :: parent :: below } := by
    rw [← hpushed, push]
    split <;> rfl
  have hdepth : t.nextDepth = below.length + 2 := by
    rw [nextDepth, Stack.depth, hlevels, List.length_cons]
  rw [hpush, hdepth]
  exact .entered hlevels hinherits (hinherits.others _ (by decide) (by decide))
    (hinherits.others _ (by decide) (by decide))

/-- **Leaving a level** tells its command set, and then that of the level below, if there are one
    and a value. -/
theorem ends_leave {level : Level σ} (htop : t.stack.top? = some level) (value : Option Value) :
    t.Ends (.ok (.leave value)) (t.hooksAfter (.ok (.leave value))) (t.conclude (.leave value)).1
      none (t.conclude (.leave value)).2 := by
  obtain ⟨below, hlevels⟩ := Stack.exists_levels htop
  rw [conclude, pop, hooksAfter, hlevels]
  cases below with
  | nil => exact .ended hlevels
  | cons parent below =>
    cases value with
    | none => exact .exited hlevels
    | some value => exact .resumed hlevels rfl rfl

/-- **What the answer of a handler leaves behind.** -/
theorem ends_settle {level : Level σ} (htop : t.stack.top? = some level)
    (answer : Except Fault (Outcome σ)) :
    ∃ status?, t.Ends answer (t.hooksAfter answer) (t.settle answer).1 status?
      (t.settle answer).2 := by
  obtain ⟨below, hlevels⟩ := Stack.exists_levels htop
  rcases answer with fault | result | commands | value | _
  · have hends := ends_fault htop fault
    refine ⟨some 1, ?_⟩
    rwa [hooksAfter, htop]
  · cases result with
    | none => exact ⟨some 0, .completed (writes_setVariable htop _ _)⟩
    | some value => exact ⟨some value.status, ends_value htop value⟩
  · exact ⟨none, ends_enter hlevels commands⟩
  · exact ⟨none, ends_leave htop value⟩
  · exact ⟨none, .aborted⟩

end

/-- What a statement leaves behind: what is reported, the status that is set if one is, and the
    shell. -/
inductive Leaves (s : Shell σ ω) (level : Level σ) (argv : Words) :
    Dispatch → Option Int64 → Shell σ ω → Prop where
  /-- nothing is done -/
  | skipped (hskips : Dispatch.Skips level.aliases argv) (hcall : s.call? argv = none)
      (hcalls : s.hookCalls argv = []) : Leaves s level argv .skipped none s
  /-- no handler is called, and a warning is written -/
  | refused {fault : Fault} {u : Shell σ ω}
      (hrefuses : Dispatch.Refuses (CommandSet.commands level.commands) level.aliases argv fault)
      (hcall : s.call? argv = none) (hcalls : s.hookCalls argv = [])
      (hwrites : Writes [(statusVariable, "2")]
        { s with console := s.console.warning fault.message } u) :
    Leaves s level argv .failed (some 2) u
  /-- a handler is called, and what it did stays done -/
  | called {c : Call σ ω} {answer : Except Fault (Outcome σ)} {t u : Shell σ ω}
      {hooks : List (HookCall σ ω)} {result : Dispatch} {status? : Option Int64}
      (hcall : s.call? argv = some c) (hreply : c.reply s = (answer, t))
      (hcalls : s.hookCalls argv = c.record ++ hooks)
      (hends : t.Ends answer hooks result status? u) : Leaves s level argv result status? u

theorem leaves_of_none {s : Shell σ ω} {level : Level σ} {argv : Words}
    (htop : s.stack.top? = some level) (hcall : s.call? argv = none) :
    ∃ status?, s.Leaves level argv (s.dispatch argv).1 status? (s.dispatch argv).2 := by
  have hcalls := hookCalls_of_none hcall
  have huncalled := dispatch_of_none hcall
  generalize s.dispatch argv = p at huncalled ⊢
  cases huncalled with
  | nowhere hnone => cases htop.symm.trans hnone
  | skipped htop' hskips =>
    obtain rfl := Option.some.inj (htop.symm.trans htop')
    exact ⟨none, .skipped hskips hcall hcalls⟩
  | @refused _ fault htop' hrefuses =>
    obtain rfl := Option.some.inj (htop.symm.trans htop')
    let warned : Shell σ ω := { s with console := s.console.warning fault.message }
    have hwrites : Writes [(statusVariable, "2")] warned (warned.setVariable statusVariable "2") :=
      writes_setVariable (s := warned) htop _ _
    exact ⟨some 2, .refused hrefuses hcall hcalls hwrites⟩

/-- **What a statement leaves behind.** -/
theorem exists_leaves {s : Shell σ ω} {level : Level σ} (htop : s.stack.top? = some level)
    (argv : Words) :
    ∃ status?, s.Leaves level argv (s.dispatch argv).1 status? (s.dispatch argv).2 := by
  cases hcall : s.call? argv with
  | none => exact leaves_of_none htop hcall
  | some c =>
    obtain ⟨below, hlevels⟩ := Stack.exists_levels htop
    have htop' : ∃ level', (c.reply s).2.stack.top? = some level' := by
      simp only [Call.reply, putBack, Stack.onTop, Stack.top?, hlevels, List.modifyHead_cons]
      exact ⟨_, List.head?_cons⟩
    obtain ⟨level', htop'⟩ := htop'
    obtain ⟨status?, hends⟩ := ends_settle htop' (c.reply s).1
    rw [dispatch_of_call hcall]
    exact ⟨status?, .called hcall rfl (hookCalls_of_call hcall) hends⟩

section
variable {s u : Shell σ ω} {level : Level σ} {argv : Words} {result : Dispatch}

/-- A status is set when a statement is completed or has failed. -/
theorem Leaves.isSome_status {status? : Option Int64} (h : s.Leaves level argv result status? u) :
    status?.isSome ↔ result = .completed ∨ result = .failed := by
  cases h with
  | skipped => simp
  | refused => simp
  | called _ _ _ hends => cases hends <;> simp

theorem Leaves.exitStatus {n : Int64} (h : s.Leaves level argv result (some n) u)
    (t : Session σ ω) : { t with shell := u }.exitStatus = n := by
  cases h with
  | refused _ _ _ hwrites => exact exitStatus_of_writes hwrites rfl t
  | called _ _ _ hends =>
    cases hends with
    | failed _ hwrites | completed hwrites | valued hwrites =>
      exact exitStatus_of_writes hwrites rfl t

end

/-- **What a dispatch writes.**  Each way to end leaves behind what it should: a status is set when
    the statement is completed or has failed, and then it is the status of every session with that
    shell. -/
theorem leaves_dispatch {s : Shell σ ω} {level : Level σ} (htop : s.stack.top? = some level)
    (argv : Words) :
    ∃ status?, s.Leaves level argv (s.dispatch argv).1 status? (s.dispatch argv).2 ∧
      (status?.isSome ↔ (s.dispatch argv).1 = .completed ∨ (s.dispatch argv).1 = .failed) ∧
      ∀ n ∈ status?, ∀ t : Session σ ω,
        { t with shell := (s.dispatch argv).2 }.exitStatus = n := by
  obtain ⟨status?, hleaves⟩ := exists_leaves htop argv
  refine ⟨status?, hleaves, hleaves.isSome_status, fun n hn t => ?_⟩
  rw [Option.mem_def] at hn
  subst hn
  exact hleaves.exitStatus t

/-- The sum of two integers becomes the status, and its text is kept as well. -/
theorem leaves_sum :
    let s : Shell Playground World :=
      Shell.pushRoot { console := .new .plain {} {} {}, world := {} } .root .empty {}
    let u := (s.dispatch ["sum", "-2", "-40"]).2
    ∃ level, s.stack.top? = some level ∧
      s.Leaves level ["sum", "-2", "-40"] .completed (some (-42)) u ∧
      ({ shell := u } : Session Playground World).exitStatus = -42 ∧
      (u.stack.top?.map fun top => (top.env.get? "?", top.env.get? "_")) =
        some (some "-42", some "-42") := by
  intro s u
  obtain ⟨status?, hleaves, hset, hstatus⟩ := leaves_dispatch (s := s) rfl ["sum", "-2", "-40"]
  have hrun : ((s.dispatch ["sum", "-2", "-40"]).1,
      ({ shell := u } : Session Playground World).exitStatus) = (.completed, -42) := by
    decide +kernel
  obtain ⟨hresult, hexit⟩ := Prod.mk.inj hrun
  obtain ⟨n, rfl⟩ := Option.isSome_iff_exists.1 (hset.2 (.inl hresult))
  obtain rfl : -42 = n := hexit.symm.trans (hstatus n rfl { shell := u })
  rw [hresult] at hleaves
  exact ⟨_, rfl, hleaves, hexit, by decide +kernel⟩

end Shell

end NestedShell
