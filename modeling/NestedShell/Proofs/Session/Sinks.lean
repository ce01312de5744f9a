/-
  Sessions whose sinks fail.

  A session reads the same input in the same way whether its sinks take what is written or not.  A
  write that fails is noted in the log, and nothing else comes of it.

  * `Session.Matches`: two sessions that are equal up to some sinks, and to what is noted about
    these; `Matches.feed`, `Matches.run`: they still are after some input, with the same results;
  * `Session.feedAll`: feeding texts one after the other; `hookCalls`: the calls of command sets
    while that is done;
  * `Session.failing`: a session whose sinks fail; `failing_unaffected` puts this together.
-/
import NestedShell.Proofs.Session.Morphism
import NestedShell.Proofs.Shell.Noted
import NestedShell.Proofs.Shell.Sinks

namespace NestedShell

variable {σ ω : Type}

/-! ## Sessions that match -/

/-- Two sessions that are equal up to some sinks, and to what is noted about these. -/
structure Session.Matches (broken : OutputStream → Bool) (s s' : Session σ ω) : Prop where
  shell : s.shell.Matches broken s'.shell
  reader : s.reader = s'.reader
  trace : s.trace = s'.trace
  lastStatus : s.lastStatus = s'.lastStatus

/-- Two runs with the same result and the same requests, which leave sessions that match. -/
structure Session.RunReport.Matches (broken : OutputStream → Bool) (r r' : RunReport σ ω) :
    Prop where
  result : r.result = r'.result
  session : r.session.Matches broken r'.session
  requests : r.requests = r'.requests

namespace Session.Matches

variable {broken : OutputStream → Bool} {s s' : Session σ ω} (h : s.Matches broken s')
include h

theorem onConsole {f : Console → Console}
    (hf : ∀ k k', k.Matches broken k' → (f k).Matches broken (f k')) :
    (s.onConsole f).Matches broken (s'.onConsole f) :=
  { h with shell := { h.shell with console := hf _ _ h.shell.console } }

theorem abandon : s.abandon.Matches broken s'.abandon :=
  { h with reader := by simp only [Session.abandon, h.reader] }

theorem rememberStatus : s.rememberStatus.Matches broken s'.rememberStatus := by
  rw [Session.rememberStatus, Session.rememberStatus, ← h.shell.stack]
  cases s.shell.stack.top?.bind fun level => level.env.int? statusVariable with
  | none => exact h
  | some status => exact { h with lastStatus := rfl }

theorem prepare (argv : Words) : (s.prepare argv).Matches broken (s'.prepare argv) := by
  rw [Session.prepare, Session.prepare, ← h.trace, ← h.shell.stack]
  cases s.trace with
  | true => exact ⟨rfl, h.shell.console.note _, rfl, h.shell.world⟩
  | false => exact ⟨rfl, h.shell.console, rfl, h.shell.world⟩

theorem refuseInput (text : String) (fault : Fault) :
    (s.refuseInput text fault).Matches broken (s'.refuseInput text fault) :=
  { h with shell := { h.shell with
      stack := by simp only [Session.refuseInput, h.shell.stack]
      console := h.shell.console.error _ } }

theorem exitStatus : s.exitStatus = s'.exitStatus := by
  rw [Session.exitStatus, Session.exitStatus, ← h.shell.stack, ← h.lastStatus]

/-- What a session asks a line source for is the same. -/
theorem request? :
    (s.request? = none ∧ s'.request? = none) ∨ ∃ request t t', s.request? = some (request, t) ∧
      s'.request? = some (request, t') ∧ t.Matches broken t' := by
  rw [Session.request?, Session.request?, ← h.shell.stack, ← h.reader]
  cases s.shell.stack.top? with
  | none => exact .inl ⟨rfl, rfl⟩
  | some level =>
    obtain ⟨hprompt, hnext⟩ := h.shell.console.prompt level.env.lookup ((level.env.get?
      (if s.reader.status = .continuation then secondaryPrompt else primaryPrompt)).getD "")
    simp only [hprompt]
    exact .inr ⟨_, _, _, rfl, rfl, ⟨⟨h.shell.stack, hnext, h.shell.interrupted, h.shell.world⟩,
      rfl, h.trace, h.lastStatus⟩⟩

/-! ## Input -/

variable [CommandSet σ ω] (hσ : CommandSet.Through σ)
include hσ

theorem perform (argv : Words) :
    (s.perform argv).1 = (s'.perform argv).1 ∧
      (s.perform argv).2.Matches broken (s'.perform argv).2 := by
  obtain ⟨hresult, hnext⟩ := (h.prepare argv).dispatch hσ argv
  exact ⟨hresult, rememberStatus { h with shell := hnext }⟩

/-- **Reading a character** halts for the same reason, if at all. -/
theorem readChar (text : String) (pos : Nat) (c : Char) :
    (s.readChar text pos c).1 = (s'.readChar text pos c).1 ∧
      (s.readChar text pos c).2.Matches broken (s'.readChar text pos c).2 := by
  rw [Session.readChar, Session.readChar, ← h.shell.stack, ← h.reader]
  cases s.shell.stack.top? with
  | none => exact ⟨rfl, h.abandon⟩
  | some level =>
    dsimp only
    rcases s.reader.step level.env.lookup pos c with ⟨fault | _ | argv, reader⟩
    all_goals
      have hread : Matches broken { s with reader } { s' with reader } := { h with reader := rfl }
    · exact ⟨rfl, hread.refuseInput text fault⟩
    · exact ⟨rfl, hread⟩
    · obtain ⟨hresult, hnext⟩ := hread.perform hσ argv
      dsimp only
      rw [← hresult]
      cases ({ s with reader } : Session σ ω).perform argv |>.1.halt? with
      | none => exact ⟨rfl, hnext⟩
      | some halt => exact ⟨rfl, hnext.abandon⟩

theorem readChars (text : String) (pending : List (Nat × Char)) :
    (Session.readChars text pending s).1 = (Session.readChars text pending s').1 ∧
      (Session.readChars text pending s).2.Matches broken
        (Session.readChars text pending s').2 := by
  induction pending generalizing s s' with
  | nil => exact ⟨rfl, h⟩
  | cons p rest ih =>
    obtain ⟨hhalt, hnext⟩ := h.readChar hσ text p.1 p.2
    rw [Session.readChars, Session.readChars]
    generalize s.readChar text p.1 p.2 = r at hhalt hnext ⊢
    generalize s'.readChar text p.1 p.2 = r' at hhalt hnext ⊢
    obtain ⟨halt?, t⟩ := r
    obtain ⟨halt?', t'⟩ := r'
    obtain rfl : halt? = halt?' := hhalt
    cases halt? with
    | none => exact ih hnext
    | some halt => exact ⟨rfl, hnext⟩

/-- **Feeding a session.** -/
theorem feed (text : String) :
    (s.feed text).1 = (s'.feed text).1 ∧ (s.feed text).2.Matches broken (s'.feed text).2 := by
  have hfinished : s'.isFinished = s.isFinished := by
    rw [isFinished, isFinished, h.shell.stack]
  have hqueue : (s.queue text).1 = (s'.queue text).1 ∧
      (s.queue text).2.Matches broken (s'.queue text).2 := by
    rw [queue, queue, ← h.reader]
    exact ⟨rfl, { h with reader := rfl }⟩
  obtain ⟨hhalt, hnext⟩ := hqueue.2.readChars hσ text (s.queue text).1
  rw [Session.feed, Session.feed, hfinished]
  split
  · exact ⟨rfl, h⟩
  · simp only [readPiece, ← hqueue.1, ← hhalt, flowAfter, ← hnext.reader]
    exact ⟨trivial, hnext⟩

/-! ## Turns with a line source -/

theorem closeLevel (continuing interactive : Bool) :
    (s.closeLevel continuing interactive).Matches broken
      (s'.closeLevel continuing interactive) := by
  have hend : (s.endInput continuing interactive).Matches broken
      (s'.endInput continuing interactive) := by
    have hnewline : (if interactive then s.onConsole (·.write "\n") else s).Matches broken
        (if interactive then s'.onConsole (·.write "\n") else s') := by
      split
      · exact h.onConsole fun _ _ hk => hk.write "\n"
      · exact h
    rw [endInput, endInput]
    refine abandon ?_
    split
    · exact hnewline.onConsole fun _ _ hk => hk.warning _
    · exact hnewline
  exact { hend with shell := (hend.shell.pop hσ none).2 }

theorem closeLevels (interactive : Bool) (levels : Nat) :
    (Session.closeLevels interactive levels s).Matches broken
      (Session.closeLevels interactive levels s') := by
  induction levels generalizing s s' with
  | zero => exact ⟨rfl, h, rfl⟩
  | succ levels ih =>
    rw [Session.closeLevels, Session.closeLevels]
    rcases h.request? with ⟨hnone, hnone'⟩ | ⟨request, t, t', hsome, hsome', hnext⟩
    · rw [hnone, hnone']
      exact ⟨rfl, h, rfl⟩
    · rw [hsome, hsome']
      obtain ⟨hresult, hsession, hrequests⟩ := ih (hnext.closeLevel hσ request.continuing interactive)
      exact ⟨hresult, hsession, congrArg (request :: ·) hrequests⟩

/-- **Running over answers**, by induction on them. -/
theorem runOver (interactive : Bool) (answers : List LineAnswer) :
    (Session.runOver interactive answers s).Matches broken
      (Session.runOver interactive answers s') := by
  induction answers generalizing s s' with
  | nil =>
    rw [Session.runOver, Session.runOver, ← h.shell.stack]
    exact h.closeLevels hσ ..
  | cons a answers ih =>
    rw [Session.runOver, Session.runOver]
    rcases h.request? with ⟨hnone, hnone'⟩ | ⟨request, t, t', hsome, hsome', hnext⟩
    · rw [hnone, hnone']
      exact ⟨rfl, h, rfl⟩
    · rw [hsome, hsome']
      have hgo {u u' : Session σ ω} (hu : u.Matches broken u') :
          RunReport.Matches broken
            { Session.runOver interactive answers u with
              requests := request :: (Session.runOver interactive answers u).requests }
            { Session.runOver interactive answers u' with
              requests := request :: (Session.runOver interactive answers u').requests } := by
        obtain ⟨hresult, hsession, hrequests⟩ := ih hu
        exact ⟨hresult, hsession, congrArg (request :: ·) hrequests⟩
      cases a with
      | line text => exact hgo (hnext.feed hσ _).2
      | endOfInput => exact hgo (hnext.closeLevel hσ ..)
      | failed message => exact ⟨rfl, hnext, rfl⟩

/-- **Running a session.** -/
theorem run (source : LineSource) : (s.run source).Matches broken (s'.run source) :=
  h.runOver hσ ..

end Session.Matches

/-! ## Feeding texts -/

namespace Session

section
variable [CommandSet σ ω]

/-- Feeds texts one after the other, and tells where the session stands after each of them. -/
def feedAll : Session σ ω → List String → List Flow × Session σ ω
  | s, [] => ([], s)
  | s, text :: texts =>
    let (flow, s) := s.feed text
    let (flows, s) := feedAll s texts
    (flow :: flows, s)

theorem feedAll_cons (s : Session σ ω) (text : String) (texts : List String) :
    s.feedAll (text :: texts) =
      ((s.feed text).1 :: ((s.feed text).2.feedAll texts).1, ((s.feed text).2.feedAll texts).2) :=
  rfl

/-- **Feeding texts**, by induction on them. -/
theorem Matches.feedAll {broken : OutputStream → Bool} {s s' : Session σ ω}
    (h : s.Matches broken s') (hσ : CommandSet.Through σ) (texts : List String) :
    (s.feedAll texts).1 = (s'.feedAll texts).1 ∧
      (s.feedAll texts).2.Matches broken (s'.feedAll texts).2 := by
  induction texts generalizing s s' with
  | nil => exact ⟨rfl, h⟩
  | cons text texts ih =>
    obtain ⟨hflow, hnext⟩ := h.feed hσ text
    obtain ⟨hflows, hlast⟩ := ih hnext
    rw [feedAll_cons, feedAll_cons, hflow, hflows]
    exact ⟨rfl, hlast⟩

end

/-- A morphism carries a session along while texts are fed. -/
theorem feedAll_map {τ χ : Type} [CommandSet σ ω] [CommandSet τ χ] {f : σ → τ} {g : ω → χ}
    (m : CommandSet.Morphism f g) (s : Session σ ω) (texts : List String) :
    (s.map f g).feedAll texts = (s.feedAll texts).map id (Session.map f g) := by
  induction texts generalizing s with
  | nil => rfl
  | cons text texts ih =>
    rw [feedAll_cons, feedAll_cons, s.feed_map m]
    simp only [Prod.map_fst, Prod.map_snd, ih]
    rfl

/-- The session with a record of calls, which is empty so far. -/
def noted (s : Session σ ω) : Session (Noted σ) (Notes σ ω) := s.map .mk fun world => ⟨world, []⟩

/-- The session with a record of calls, the latest first. -/
def recording (s : Session σ ω) (calls : List (HookCall σ ω)) : Session (Noted σ) (Notes σ ω) :=
  s.map .mk fun world => ⟨world, calls⟩

theorem inner_recording (s : Session σ ω) (calls : List (HookCall σ ω)) :
    (s.recording calls).map Noted.inner Notes.world = s :=
  congrArg (fun shell => { s with shell }) (s.shell.inner_recording calls)

/-- Every session with a record is one of these. -/
theorem recording_inner (s : Session (Noted σ) (Notes σ ω)) :
    (s.map Noted.inner Notes.world).recording s.shell.world.calls = s :=
  congrArg (fun shell => { s with shell }) s.shell.recording_inner

theorem inner_noted (s : Session σ ω) : s.noted.map Noted.inner Notes.world = s :=
  s.inner_recording []

variable [CommandSet σ ω]

/-- A session with a record does the same. -/
theorem inner_feedAll (s : Session σ ω) (texts : List String) :
    (s.noted.feedAll texts).map id (Session.map Noted.inner Notes.world) = s.feedAll texts := by
  rw [← feedAll_map unnoted, inner_noted]

/-- How command sets are called while texts are fed. -/
def hookCalls (s : Session σ ω) (texts : List String) : List (HookCall σ ω) :=
  (s.noted.feedAll texts).2.shell.world.calls

end Session

/-! ## Sinks that fail -/

/-- A sink that fails from now on, if there is a message. -/
def Sink.failing (s : Sink) (failure : Option String) : Sink :=
  { s with failure := failure.or s.failure }

/-- The streams that have a message fail with it from now on. -/
def Console.failing (k : Console) (failure : OutputStream → Option String) : Console :=
  { k with out := k.out.failing (failure .out), err := k.err.failing (failure .err) }

theorem Console.matches_failing (k : Console) (failure : OutputStream → Option String) :
    k.Matches (fun stream => (failure stream).isSome) (k.failing failure) := by
  have hsink (s : Sink) {f : Option String} (hf : f.isSome = false) : s = s.failing f := by
    rw [Option.isSome_eq_false_iff, Option.isNone_iff_eq_none] at hf
    rw [hf]
    rfl
  exact ⟨hsink _, hsink _, rfl, rfl, rfl, rfl⟩

namespace Session

/-- The session from the moment on when some sinks fail. -/
def failing (s : Session σ ω) (failure : OutputStream → Option String) : Session σ ω :=
  s.onConsole (·.failing failure)

theorem matches_failing (s : Session σ ω) (failure : OutputStream → Option String) :
    s.Matches (fun stream => (failure stream).isSome) (s.failing failure) :=
  ⟨⟨rfl, s.shell.console.matches_failing failure, rfl, rfl⟩, rfl, rfl, rfl⟩

/-- **Sinks that fail change nothing** but what is written to them and what is noted about it, for
    handlers and hooks that use the console only by its operations. -/
theorem failing_unaffected [CommandSet σ ω] (hσ : CommandSet.Through σ) (s : Session σ ω)
    (failure : OutputStream → Option String) :
    let broken := fun stream => (failure stream).isSome
    let t := s.failing failure
    (∀ texts, (s.feedAll texts).1 = (t.feedAll texts).1 ∧
      (s.feedAll texts).2.Matches broken (t.feedAll texts).2 ∧
      (s.feedAll texts).2.exitStatus = (t.feedAll texts).2.exitStatus ∧
      s.hookCalls texts = t.hookCalls texts) ∧
    ∀ source, (s.run source).Matches broken (t.run source) ∧
      (s.noted.run source).session.shell.world.calls =
        (t.noted.run source).session.shell.world.calls := by
  intro broken t
  have hmatches : s.Matches broken t := s.matches_failing failure
  have hnoted : s.noted.Matches broken t.noted := s.noted.matches_failing failure
  refine ⟨fun texts => ?_, fun source => ?_⟩
  · obtain ⟨hflows, hlast⟩ := hmatches.feedAll hσ texts
    exact ⟨hflows, hlast, hlast.exitStatus,
      congrArg Notes.calls (hnoted.feedAll hσ.noted texts).2.shell.world⟩
  · exact ⟨hmatches.run hσ source,
      congrArg Notes.calls (hnoted.run hσ.noted source).session.shell.world⟩

/-- Neither sink of a playground takes what is written.  So the report of a command that fails is
    lost, and nothing else. -/
theorem playground_unaffected :
    let s : Session Playground World := .new .root .empty {} (.new .plain {} {} {}) {}
    let t := s.failing fun _ => some "broken pipe"
    let texts := ["fail; nest inner", "\nexit 3; echo \"", "$?\"\n"]
    (s.feedAll texts).1 = (t.feedAll texts).1 ∧
      (s.feedAll texts).2.exitStatus = (t.feedAll texts).2.exitStatus ∧
      s.hookCalls texts = t.hookCalls texts ∧
      (s.feedAll ["fail\n"]).2.shell.console.err.written ≠ "" ∧
      (t.feedAll ["fail\n"]).2.shell.console.err.written = "" := by
  intro s t texts
  obtain ⟨hflows, -, hstatus, hcalls⟩ :=
    (failing_unaffected Playground.through s fun _ => some "broken pipe").1 texts
  exact ⟨hflows, hstatus, hcalls, by decide +kernel, by decide +kernel⟩

end Session

end NestedShell
