/-
  What an abort undoes.

  A handler may give up because of an interrupt.  Then its level, and every other one, stays where
  it is; the flag is lowered, and what is left of the input is dropped.  Interrupts that come between
  two pieces of input reach no handler at all.

  * `Session.dispatches` are the statements that acts read, each with the shell in which it is
    dispatched, and `Session.fed` those of a piece of input; `hookCalls_eq`: what they call is what
    feeding the session calls;
  * `HookCall.Lowered`: a handler is called with the flag down, `lowered_feed`: so it is in every
    piece of input;
  * `Session.Unwound` says what is left when a handler gave up, and `feed_aborts` puts this together.
-/
import NestedShell.Proofs.Session.LastStatus
import NestedShell.Proofs.Session.Sinks
import NestedShell.Proofs.Shell.Footprint

namespace NestedShell

variable {σ ω : Type} [CommandSet σ ω]

/-! ## The statements of a piece of input -/

namespace Session

/-- The statement that ends with the character that an act reads. -/
def statement? (s : Session σ ω) : Act σ ω → Option Words
  | .read _ pos c =>
    match s.shell.stack.top? with
    | none => none
    | some level =>
      match s.reader.step level.env.lookup pos c with
      | (.ok statement?, _) => statement?
      | (.error _, _) => none
  | _ => none

/-- The statement that an act reads, and the shell in which it is dispatched. -/
def dispatch? (s : Session σ ω) (a : Act σ ω) : Option (Shell σ ω × Words) :=
  (s.statement? a).map fun argv => (s.prepare argv, argv)

/-- The statements that acts read. -/
def dispatches : List (Act σ ω) → Session σ ω → List (Shell σ ω × Words)
  | [], _ => []
  | a :: acts, s => (s.dispatch? a).toList ++ dispatches acts (s.act a)

/-- The statements of a piece of input. -/
def fed (s : Session σ ω) (text : String) : List (Shell σ ω × Words) :=
  dispatches (s.feedActs text) s

/-- **Before a statement is dispatched**, the flag is lowered. -/
theorem interrupted_dispatches {acts : List (Act σ ω)} {s : Session σ ω}
    {d : Shell σ ω × Words} (h : d ∈ dispatches acts s) : d.1.interrupted = false := by
  induction acts generalizing s with
  | nil => cases h
  | cons a acts ih =>
    rcases List.mem_append.1 h with h | h
    · rw [Option.mem_toList, dispatch?, Option.map_eq_some_iff] at h
      obtain ⟨argv, -, rfl⟩ := h
      rfl
    · exact ih h

end Session

/-- The desk of a handler has the flag of the shell. -/
theorem Shell.interrupted_call {s : Shell σ ω} {argv : Words} {c : Call σ ω}
    (h : s.call? argv = some c) : c.desk.interrupted = s.interrupted := by
  obtain ⟨-, level, -, hrouted⟩ := Shell.routed_of_call h
  obtain ⟨notes, hdesk⟩ := hrouted.desk
  rw [hdesk]
  rfl

/-! ## Handlers start with the flag down -/

/-- A handler is called with the flag down. -/
def HookCall.Lowered : HookCall σ ω → Prop
  | .run r _ | .unknown r _ => r.interrupted = false
  | .resume .. | .reportFault .. | .finalize .. => True

namespace Shell

omit [CommandSet σ ω] in
theorem lowered_record {c : Call σ ω} (h : c.desk.interrupted = false) :
    ∀ call ∈ c.record, call.Lowered := by
  obtain ⟨route, inv, desk⟩ := c
  cases route with
  | level | unknown => exact List.forall_mem_singleton.2 h
  | builtin => exact List.forall_mem_nil _

theorem lowered_hooksAfter (t : Shell σ ω) (answer : Except Fault (Outcome σ)) :
    ∀ call ∈ t.hooksAfter answer, call.Lowered := by
  obtain ⟨⟨levels, exitValue⟩, console, interrupted, world⟩ := t
  rcases answer with fault | result | commands | value | _
  · cases levels <;> simp [hooksAfter, Stack.top?, HookCall.Lowered]
  · exact List.forall_mem_nil _
  · exact List.forall_mem_nil _
  · rcases levels with _ | ⟨level, _ | ⟨parent, below⟩⟩ <;> cases value <;>
      simp [hooksAfter, HookCall.Lowered]
  · exact List.forall_mem_nil _

theorem lowered_hookCalls {s : Shell σ ω} (h : s.interrupted = false) (argv : Words) :
    ∀ call ∈ s.hookCalls argv, call.Lowered := by
  cases hcall : s.call? argv with
  | none =>
    rw [hookCalls_of_none hcall]
    exact List.forall_mem_nil _
  | some c =>
    rw [hookCalls_of_call hcall]
    exact List.forall_mem_append.2
      ⟨lowered_record ((interrupted_call hcall).trans h), lowered_hooksAfter _ _⟩

end Shell

namespace Session

/-- How command sets are called while statements are dispatched, in order. -/
def callsOf (ds : List (Shell σ ω × Words)) : List (HookCall σ ω) :=
  ds.flatMap fun d => d.1.hookCalls d.2

theorem callsOf_append (ds more : List (Shell σ ω × Words)) :
    callsOf (ds ++ more) = callsOf ds ++ callsOf more :=
  List.flatMap_append

omit [CommandSet σ ω] in
theorem statement?_recording (s : Session σ ω) (calls : List (HookCall σ ω)) (text : String)
    (pos : Nat) (c : Char) :
    (s.recording calls).statement? (.read text pos c) = s.statement? (.read text pos c) := by
  rw [statement?, statement?, recording, top?_map]
  cases s.shell.stack.top? <;> rfl

/-- **Reading a character** calls what the statement calls that ends with it. -/
theorem calls_readChar (s : Session σ ω) (calls : List (HookCall σ ω)) (text : String) (pos : Nat)
    (c : Char) :
    ((s.recording calls).readChar text pos c).2.shell.world.calls =
      (callsOf (s.dispatch? (.read text pos c)).toList).reverse ++ calls := by
  have hdispatch (argv : Words) : (((s.recording calls).prepare argv).dispatch argv).2.world.calls =
      (callsOf [(s.prepare argv, argv)]).reverse ++ calls := by
    rw [callsOf, List.flatMap_singleton, recording, prepare_map]
    exact (s.prepare argv).calls_dispatch calls argv
  have hread := (s.recording calls).charRead text pos c
  rw [dispatch?, ← s.statement?_recording calls text pos c]
  generalize (s.recording calls).readChar text pos c = result at hread ⊢
  cases hread with
  | nowhere htop =>
    simp only [statement?, htop]
    rfl
  | refused htop hstep | unfinished htop hstep =>
    simp only [statement?, htop, hstep]
    rfl
  | halted htop hstep | performed htop hstep =>
    simp only [statement?, htop, hstep, abandon, perform_shell]
    exact hdispatch _

/-- So does reading it with a record, which otherwise changes nothing. -/
theorem readChar_recording (s : Session σ ω) (calls : List (HookCall σ ω)) (text : String)
    (pos : Nat) (c : Char) :
    (s.recording calls).readChar text pos c = ((s.readChar text pos c).1,
      (s.readChar text pos c).2.recording
        ((callsOf (s.dispatch? (.read text pos c)).toList).reverse ++ calls)) := by
  have hmap := (s.recording calls).readChar_map unnoted text pos c
  rw [inner_recording] at hmap
  rw [hmap, ← calls_readChar]
  exact Prod.ext rfl (recording_inner _).symm

/-- **Reading characters** calls what their statements call. -/
theorem calls_readChars (s : Session σ ω) (calls : List (HookCall σ ω)) (text : String)
    (ps : List (Nat × Char)) :
    (readChars text ps (s.recording calls)).2.shell.world.calls =
      (callsOf (dispatches (readActs text ps s) s)).reverse ++ calls := by
  induction ps generalizing s calls with
  | nil => rfl
  | cons p ps ih =>
    obtain ⟨pos, c⟩ := p
    rw [readChars, readActs, dispatches, act, readChar_recording, callsOf_append,
      List.reverse_append, List.append_assoc]
    rcases s.readChar text pos c with ⟨_ | halt, t⟩
    · exact ih t _
    · rfl

/-- **Feeding a session** calls what the statements of the input call, and nothing else. -/
theorem hookCalls_eq (s : Session σ ω) (text : String) :
    s.hookCalls [text] = (callsOf (s.fed text)).reverse := by
  have hfinished : s.noted.isFinished = s.isFinished := by
    simp [noted, map, Shell.map, Stack.map, isFinished, Stack.isEmpty]
  have hfeed : s.hookCalls [text] = (s.noted.feed text).2.shell.world.calls := rfl
  rw [hfeed, feed, fed, feedActs, hfinished]
  split
  · rfl
  · have hcalls := calls_readChars (s.queue text).2 [] text (s.queue text).1
    rwa [List.append_nil] at hcalls

/-- **Handlers are called with the flag down.** -/
theorem lowered_feed (s : Session σ ω) (text : String) :
    ∀ call ∈ s.hookCalls [text], call.Lowered := by
  intro call hmem
  rw [hookCalls_eq, List.mem_reverse, callsOf, List.mem_flatMap] at hmem
  obtain ⟨d, hd, hmem⟩ := hmem
  exact Shell.lowered_hookCalls (interrupted_dispatches hd) d.2 call hmem

/-! ## A handler gives up -/

/-- What is left of a session when a handler gave up, which left the shell `t`. -/
structure Unwound (t : Shell σ ω) (s : Session σ ω) : Prop where
  /-- the levels are there, with the variables and aliases that the handler left -/
  stack : s.shell.stack = t.stack
  world : s.shell.world = t.world
  console : s.shell.console = t.console.write "\n"
  written : t.console.out.failure = none →
    s.shell.console.out.written = t.console.out.written ++ "\n"
  interrupted : s.shell.interrupted = false
  /-- the next input starts a statement -/
  reader : s.reader = {}

/-- A dispatch in which the handler gives up. -/
theorem dispatch_of_abort {r t : Shell σ ω} {argv : Words}
    (h : r.reply? argv = some (.ok .abort, t)) :
    OnlyTop r.stack.levels t.stack.levels ∧
      r.dispatch argv =
        (.aborted, { t with interrupted := false, console := t.console.write "\n" }) := by
  obtain ⟨-, htop, hdispatch⟩ := Shell.dispatch_of_reply h
  exact ⟨htop, hdispatch⟩

theorem written_newline {k : Console} (h : k.out.failure = none) :
    (k.write "\n").out.written = k.out.written ++ "\n" := by
  simp only [Console.write, Sink.write, h]

theorem unwound_of_abort {s : Session σ ω} {argv : Words} {t : Shell σ ω} (reader : Reader)
    (h : (s.prepare argv).reply? argv = some (.ok .abort, t)) :
    Unwound t ({ s with reader }.perform argv).2.abandon := by
  have hshell : ({ s with reader }.perform argv).2.shell =
      { t with interrupted := false, console := t.console.write "\n" } := by
    rw [perform_shell]
    exact congrArg Prod.snd (dispatch_of_abort h).2
  simp only [abandon]
  rw [hshell]
  exact ⟨rfl, rfl, rfl, written_newline, rfl, rfl⟩

/-- **Reading stops** with the statement whose handler gives up. -/
theorem readChars_of_abort (text : String) {ps : List (Nat × Char)} {s : Session σ ω}
    {before later : List (Shell σ ω × Words)} {r t : Shell σ ω} {argv : Words}
    (h : dispatches (readActs text ps s) s = before ++ (r, argv) :: later)
    (hreply : r.reply? argv = some (.ok .abort, t)) :
    later = [] ∧ (readChars text ps s).1 = some .aborted ∧ Unwound t (readChars text ps s).2 := by
  induction ps generalizing s before with
  | nil => simp [readActs, dispatches] at h
  | cons p ps ih =>
    obtain ⟨pos, c⟩ := p
    rw [readActs, dispatches, act] at h
    rw [readChars]
    have hread := s.charRead text pos c
    generalize s.readChar text pos c = result at hread h ⊢
    cases hread with
    | nowhere htop => simp [dispatch?, statement?, htop, dispatches] at h
    | refused htop hstep => simp [dispatch?, statement?, htop, hstep, dispatches] at h
    | unfinished htop hstep =>
      simp only [dispatch?, statement?, htop, hstep, Option.map_none, Option.toList_none,
        List.nil_append] at h
      exact ih h
    | @halted level argv' reader halt htop hstep hhalt =>
      simp only [dispatch?, statement?, htop, hstep, Option.map_some, Option.toList_some, dispatches,
        List.append_nil] at h
      cases before with
      | cons d before => simp at h
      | nil =>
        rw [List.nil_append, List.cons.injEq, Prod.mk.injEq] at h
        obtain ⟨⟨rfl, rfl⟩, rfl⟩ := h
        obtain rfl : Halt.aborted = halt := by
          rw [(dispatch_of_abort hreply).2] at hhalt
          exact Option.some.inj hhalt
        exact ⟨rfl, rfl, unwound_of_abort reader hreply⟩
    | @performed level argv' reader htop hstep hhalt =>
      simp only [dispatch?, statement?, htop, hstep, Option.map_some, Option.toList_some,
        List.singleton_append] at h
      cases before with
      | nil =>
        rw [List.nil_append, List.cons.injEq, Prod.mk.injEq] at h
        obtain ⟨⟨rfl, rfl⟩, -⟩ := h
        -- after this statement reading would have stopped
        rw [(dispatch_of_abort hreply).2] at hhalt
        cases hhalt
      | cons d before => exact ih (List.cons.inj h).2

/-- **Feeding stops** with the statement whose handler gives up. -/
theorem feed_of_abort {s : Session σ ω} {text : String}
    {before later : List (Shell σ ω × Words)} {r t : Shell σ ω} {argv : Words}
    (h : s.fed text = before ++ (r, argv) :: later)
    (hreply : r.reply? argv = some (.ok .abort, t)) :
    later = [] ∧ (s.feed text).1 = .ready ∧ Unwound t (s.feed text).2 := by
  rw [fed, feedActs] at h
  rw [feed]
  split at h
  · simp [dispatches] at h
  · rename_i hfinished
    have h : dispatches (readActs text (s.queue text).1 (s.queue text).2) (s.queue text).2 =
        before ++ (r, argv) :: later := h
    obtain ⟨hlater, hhalt, hunwound⟩ := readChars_of_abort text h hreply
    rw [if_neg hfinished, readPiece]
    refine ⟨hlater, ?_, hunwound⟩
    exact congrArg (flowAfter _) hhalt

/-- **An abort undoes one statement and nothing else.**  The handlers and hooks that a piece of
    input calls are those of its statements.  Whatever the session holds and whenever interrupts
    came, a handler starts with the flag down.  If one gives up, every level stays, as the handler
    left it, and no hook is called; a newline is written; the flag is down; and what is left of the
    input is dropped, so that the next input starts a statement. -/
theorem feed_aborts (s : Session σ ω) (text : String) :
    s.hookCalls [text] = (callsOf (s.fed text)).reverse ∧
    (∀ call ∈ s.hookCalls [text], call.Lowered) ∧
    (∀ r argv, (r, argv) ∈ s.fed text → ∀ c, r.call? argv = some c → c.desk.interrupted = false) ∧
    ∀ before r argv later, s.fed text = before ++ (r, argv) :: later →
      ∀ t, r.reply? argv = some (.ok .abort, t) →
        (∃ c, r.call? argv = some c ∧ r.hookCalls argv = c.record) ∧
        OnlyTop r.stack.levels t.stack.levels ∧
        later = [] ∧ (s.feed text).1 = .ready ∧ Unwound t (s.feed text).2 := by
  refine ⟨s.hookCalls_eq text, s.lowered_feed text, fun r argv hmem c hc => ?_,
    fun before r argv later hfed t hreply => ⟨?_, ?_, feed_of_abort hfed hreply⟩⟩
  · exact (Shell.interrupted_call hc).trans (interrupted_dispatches hmem)
  · rw [Shell.reply?_eq, Option.map_eq_some_iff] at hreply
    obtain ⟨c, hc, hreply⟩ := hreply
    refine ⟨c, hc, ?_⟩
    rw [Shell.hookCalls_of_call hc, hreply]
    exact List.append_nil _
  · exact (dispatch_of_abort hreply).1

/-- Commands that start a level of the same commands, and raise the interrupt flag and give up. -/
def stoppable : Session Scripted World :=
  let vocabulary : Vocabulary :=
    { commands := [(⟨"in", ""⟩, .enter "stoppable"), (⟨"stop", ""⟩, .abort)] }
  .new (.vocabulary "stoppable" [("stoppable", vocabulary)]) .empty {} (.new .plain {} {} {}) {}

/-- After an interrupt at the prompt, a nested level is entered and a command in it gives up: the
    level stays, and neither the next statement nor the open quote is left. -/
theorem stoppable_aborts :
    let s := stoppable.interrupt
    let text := "in; stop; in\n'"
    ∃ d r t, s.fed text = [d, (r, ["stop"])] ∧
      r.reply? ["stop"] = some (.ok .abort, t) ∧ OnlyTop r.stack.levels t.stack.levels ∧
      (s.feed text).1 = .ready ∧ Unwound t (s.feed text).2 ∧
      (s.feed text).2.shell.stack.depth = 2 := by
  intro s text
  have hmap : (s.fed text).map
      (fun d => (d.2, decide ((d.1.reply? d.2).map Prod.fst = some (.ok .abort)))) =
        [(["in"], false), (["stop"], true)] := by
    decide +kernel
  obtain ⟨d, ds, hfed, -, hmap⟩ := List.map_eq_cons_iff.1 hmap
  obtain ⟨⟨r, argv⟩, ds, rfl, hd, hmap⟩ := List.map_eq_cons_iff.1 hmap
  obtain rfl := List.map_eq_nil_iff.1 hmap
  simp only [Prod.mk.injEq, decide_eq_true_eq] at hd
  obtain ⟨rfl, hanswer⟩ := hd
  obtain ⟨⟨_, t⟩, hreply, rfl⟩ := Option.map_eq_some_iff.1 hanswer
  obtain ⟨-, htop, -, hready, hunwound⟩ :=
    (s.feed_aborts text).2.2.2 [d] r ["stop"] [] hfed t hreply
  exact ⟨d, r, t, hfed, hreply, htop, hready, hunwound, by decide +kernel⟩

end Session

end NestedShell
