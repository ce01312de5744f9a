/-
  The status that is left when no level is left.

  Every statement that is processed is recorded with the status of the level that is active after
  it.  The status that a session remembers is that of the last statement that was dispatched; a
  statement that the reader refuses sets the status of the level but is not remembered.  So when the
  last level is left without a value, the status of the session is the one that was recorded last,
  unless that is the status of a refused statement.

  * `feedActs` and `runActs` are the acts that feeding and running a session come down to;
  * an `Entry` is the record of a statement, `entries` are those of the statements that acts
    process; `lastStatus_after`: what is remembered after acts;
  * `IsInput`: an act of reading input; `after_left`: when no level is left, such acts leave
    the stack as it is;
  * an `Input` is a text or a line source; `LeavesStatus` and `exitStatus_inputs` put this together;
    `status_refused`: a refused statement is not remembered.
-/
import NestedShell.Proofs.Session.EndOfInput

namespace NestedShell.Session

variable {σ ω : Type} [CommandSet σ ω]

/-! ## The acts of feeding and running -/

/-- The acts of reading characters, up to where reading halts. -/
def readActs (text : String) : List (Nat × Char) → Session σ ω → List (Act σ ω)
  | [], _ => []
  | (pos, c) :: rest, s =>
    .read text pos c ::
      match s.readChar text pos c with
      | (none, t) => readActs text rest t
      | (some _, _) => []

/-- The acts that feeding a session with a piece of input comes down to. -/
def feedActs (s : Session σ ω) (text : String) : List (Act σ ω) :=
  if s.isFinished then []
  else .queue text :: readActs text (s.queue text).1 (s.queue text).2

/-- The act of asking for a line, which leaves the console as it is in `t`. -/
def askAct (t : Session σ ω) : Act σ ω :=
  .outside t.shell.console t.shell.interrupted t.shell.world t.trace

/-- The acts for an answer of the source. -/
def answerActs (s : Session σ ω) (request : LineRequest) (interactive : Bool) :
    LineAnswer → List (Act σ ω)
  | .line text => s.feedActs (text.push '\n')
  | .endOfInput => [.close request.continuing interactive]
  | .failed _ => []

/-- The acts for levels that are left one by one, once the source has no more lines. -/
def closeActs (interactive : Bool) : Nat → Session σ ω → List (Act σ ω)
  | 0, _ => []
  | levels + 1, s =>
    match s.request? with
    | none => []
    | some (request, t) =>
      askAct t :: .close request.continuing interactive ::
        closeActs interactive levels (t.closeLevel request.continuing interactive)

/-- The acts of a run over the answers of a source. -/
def overActs (interactive : Bool) : List LineAnswer → Session σ ω → List (Act σ ω)
  | [], s => closeActs interactive s.shell.stack.depth s
  | a :: answers, s =>
    match s.request? with
    | none => []
    | some (request, t) =>
      askAct t :: t.answerActs request interactive a ++
        match t.answer request interactive a with
        | .error _ => []
        | .ok u => overActs interactive answers u

/-- The acts that running a session comes down to. -/
def runActs (s : Session σ ω) (source : LineSource) : List (Act σ ω) :=
  overActs source.interactive source.answers s

theorem after_cons (s : Session σ ω) (a : Act σ ω) (acts : List (Act σ ω)) :
    s.after (a :: acts) = (s.act a).after acts := rfl

theorem after_append (s : Session σ ω) (acts more : List (Act σ ω)) :
    s.after (acts ++ more) = (s.after acts).after more :=
  List.foldl_append

theorem after_readActs (text : String) (ps : List (Nat × Char)) (s : Session σ ω) :
    s.after (readActs text ps s) = (readChars text ps s).2 := by
  induction ps generalizing s with
  | nil => rfl
  | cons p ps ih =>
    obtain ⟨pos, c⟩ := p
    rw [readActs, readChars, after_cons, act]
    rcases s.readChar text pos c with ⟨_ | halt, t⟩
    · exact ih t
    · rfl

/-- **Feeding a session** is doing these acts. -/
theorem after_feedActs (s : Session σ ω) (text : String) :
    s.after (s.feedActs text) = (s.feed text).2 := by
  rw [feedActs, feed]
  split
  · rfl
  · exact after_readActs text (s.queue text).1 (s.queue text).2

theorem act_askAct {s t : Session σ ω} {request : LineRequest}
    (h : s.request? = some (request, t)) : s.act (askAct t) = t := by
  rw [request?] at h
  split at h
  · cases h
  · cases h
    rfl

theorem after_answerActs {s t : Session σ ω} {request : LineRequest} {interactive : Bool}
    {a : LineAnswer} (h : s.answer request interactive a = .ok t) :
    s.after (s.answerActs request interactive a) = t := by
  cases a with
  | line text =>
    cases h
    exact s.after_feedActs _
  | endOfInput =>
    cases h
    rfl
  | failed message => cases h

theorem after_closeActs (interactive : Bool) (levels : Nat) (s : Session σ ω) :
    s.after (closeActs interactive levels s) = (closeLevels interactive levels s).session := by
  induction levels generalizing s with
  | zero => rfl
  | succ levels ih =>
    rw [closeActs, closeLevels]
    cases hrequest : s.request? with
    | none => rfl
    | some turn =>
      obtain ⟨request, t⟩ := turn
      dsimp only
      rw [after_cons, act_askAct hrequest, after_cons]
      exact ih _

/-- **Running a session** is doing these acts. -/
theorem after_runActs (s : Session σ ω) (source : LineSource) :
    s.after (s.runActs source) = (s.run source).session := by
  rw [runActs, run]
  induction source.answers generalizing s with
  | nil => exact after_closeActs _ _ s
  | cons a answers ih =>
    rw [overActs, runOver]
    cases hrequest : s.request? with
    | none => rfl
    | some turn =>
      obtain ⟨request, t⟩ := turn
      dsimp only
      rw [List.cons_append, after_cons, act_askAct hrequest, after_append]
      cases hanswer : t.answer request source.interactive a with
      | error fault =>
        cases a with
        | line | endOfInput => cases hanswer
        | failed message => rfl
      | ok u =>
        rw [after_answerActs hanswer]
        exact ih u

/-! ## What is recorded -/

/-- The record of a statement that was processed. -/
structure Entry where
  /-- whether the reader refused it, so that it was not dispatched -/
  refused : Bool
  /-- the status of the level that is active after it -/
  status : Int64
deriving DecidableEq, Repr

/-- The status of the active level, if there is one and it is numeric. -/
def activeStatus? (s : Session σ ω) : Option Int64 :=
  s.shell.stack.top?.bind fun level => level.env.int? statusVariable

/-- Whether an act processes a statement, and whether the reader refuses it. -/
def processed? (s : Session σ ω) : Act σ ω → Option Bool
  | .read _ pos c =>
    match s.shell.stack.top? with
    | none => none
    | some level =>
      match s.reader.step level.env.lookup pos c with
      | (.error _, _) => some true
      | (.ok none, _) => none
      | (.ok (some _), _) => some false
  | _ => none

/-- The record of a statement that an act processes, if a level with a numeric status is left. -/
def recorded? (s : Session σ ω) (a : Act σ ω) : Option Entry :=
  (s.processed? a).bind fun refused => (s.act a).activeStatus?.map (Entry.mk refused)

/-- The records of the statements that acts process. -/
def entries : List (Act σ ω) → Session σ ω → List Entry
  | [], _ => []
  | a :: acts, s => (s.recorded? a).toList ++ entries acts (s.act a)

/-- The status that was recorded last. -/
def lastOf (es : List Entry) (start : Int64) : Int64 := es.foldl (fun _ e => e.status) start

/-- The records of statements that were dispatched. -/
def dispatched (es : List Entry) : List Entry := es.filter (!·.refused)

theorem lastOf_dispatched (status? : Option Int64) (start : Int64) :
    lastOf (dispatched (status?.map (Entry.mk false)).toList) start = status?.getD start := by
  cases status? <;> rfl

theorem lastOf_refused (status? : Option Int64) (start : Int64) :
    lastOf (dispatched (status?.map (Entry.mk true)).toList) start = start := by
  cases status? <;> rfl

omit [CommandSet σ ω] in
theorem lastStatus_eq_getD (s : Session σ ω) :
    s.rememberStatus.lastStatus = s.activeStatus?.getD s.lastStatus := by
  rw [lastStatus_rememberStatus, activeStatus?]
  cases s.shell.stack.top? <;> rfl

omit [CommandSet σ ω] in
theorem activeStatus?_rememberStatus (s : Session σ ω) :
    s.rememberStatus.activeStatus? = s.activeStatus? := by
  rw [activeStatus?, shell_rememberStatus, activeStatus?]

/-- What is remembered after a statement was dispatched is the status of the active level. -/
theorem lastStatus_perform (s : Session σ ω) (argv : Words) :
    (s.perform argv).2.lastStatus = (s.perform argv).2.activeStatus?.getD s.lastStatus := by
  simp only [perform, lastStatus_eq_getD, activeStatus?_rememberStatus]

/-- **One act**: the status that is remembered is that of the statement that it dispatches. -/
theorem lastStatus_act (s : Session σ ω) (a : Act σ ω) :
    (s.act a).lastStatus = lastOf (dispatched (s.recorded? a).toList) s.lastStatus := by
  cases a with
  | read text pos c =>
    have hread := s.charRead text pos c
    simp only [recorded?, act]
    generalize s.readChar text pos c = result at hread ⊢
    cases hread with
    | nowhere htop =>
      simp only [processed?, htop]
      rfl
    | refused htop hstep =>
      simp only [processed?, htop, hstep, Option.bind_some]
      exact (lastOf_refused _ _).symm
    | unfinished htop hstep =>
      simp only [processed?, htop, hstep]
      rfl
    | @halted level argv reader halt htop hstep | @performed level argv reader htop hstep =>
      have hlast := ({ s with reader } : Session σ ω).lastStatus_perform argv
      simp only [processed?, htop, hstep, Option.bind_some]
      exact hlast.trans (lastOf_dispatched _ _).symm
  | close continuing interactive => cases continuing <;> cases interactive <;> rfl
  | queue | drop | statement | pushRoot | push | pop | edit | outside => rfl

/-- **After acts** the session remembers the status of the last statement that was dispatched. -/
theorem lastStatus_after (s : Session σ ω) (acts : List (Act σ ω)) :
    (s.after acts).lastStatus = lastOf (dispatched (entries acts s)) s.lastStatus := by
  induction acts generalizing s with
  | nil => rfl
  | cons a acts ih =>
    rw [after_cons, ih, lastStatus_act, entries, dispatched, dispatched, dispatched,
      List.filter_append, lastOf, lastOf, lastOf, List.foldl_append]

/-- If the last statement was dispatched, it does not matter that refused ones are left out. -/
theorem lastOf_dispatched_eq {es : List Entry} (h : ∀ e ∈ es.getLast?, e.refused = false)
    (start : Int64) : lastOf (dispatched es) start = lastOf es start := by
  rcases List.eq_nil_or_concat es with rfl | ⟨before, last, rfl⟩
  · rfl
  · have hlast : last.refused = false := h last (by simp)
    simp [lastOf, dispatched, hlast]

/-! ## When no level is left -/

/-- An act of reading input, not one from outside that enters or leaves a level, or edits one. -/
def IsInput : Act σ ω → Prop
  | .queue _ | .read .. | .drop | .close .. | .outside .. => True
  | .statement _ | .pushRoot .. | .push _ | .pop _ | .edit .. => False

theorem isInput_readActs (text : String) (ps : List (Nat × Char)) (s : Session σ ω) :
    ∀ a ∈ readActs text ps s, IsInput a := by
  induction ps generalizing s with
  | nil => exact List.forall_mem_nil _
  | cons p ps ih =>
    obtain ⟨pos, c⟩ := p
    rw [readActs]
    rcases s.readChar text pos c with ⟨_ | halt, t⟩
    · exact List.forall_mem_cons.2 ⟨trivial, ih t⟩
    · exact List.forall_mem_singleton.2 trivial

theorem isInput_feedActs (s : Session σ ω) (text : String) : ∀ a ∈ s.feedActs text, IsInput a := by
  rw [feedActs]
  split
  · exact List.forall_mem_nil _
  · exact List.forall_mem_cons.2 ⟨trivial, isInput_readActs text _ _⟩

theorem isInput_answerActs (s : Session σ ω) (request : LineRequest) (interactive : Bool)
    (answer : LineAnswer) : ∀ a ∈ s.answerActs request interactive answer, IsInput a := by
  cases answer with
  | line text => exact s.isInput_feedActs _
  | endOfInput => exact List.forall_mem_singleton.2 trivial
  | failed message => exact List.forall_mem_nil _

theorem isInput_closeActs (interactive : Bool) (levels : Nat) (s : Session σ ω) :
    ∀ a ∈ closeActs interactive levels s, IsInput a := by
  induction levels generalizing s with
  | zero => exact List.forall_mem_nil _
  | succ levels ih =>
    rw [closeActs]
    split
    · exact List.forall_mem_nil _
    · exact List.forall_mem_cons.2 ⟨trivial, List.forall_mem_cons.2 ⟨trivial, ih _⟩⟩

theorem isInput_runActs (s : Session σ ω) (source : LineSource) :
    ∀ a ∈ s.runActs source, IsInput a := by
  rw [runActs]
  induction source.answers generalizing s with
  | nil => exact isInput_closeActs _ _ s
  | cons answer answers ih =>
    rw [overActs]
    split
    · exact List.forall_mem_nil _
    · rename_i request t _
      refine List.forall_mem_append.2 ⟨List.forall_mem_cons.2 ⟨trivial, ?_⟩, ?_⟩
      · exact t.isInput_answerActs request _ answer
      · split
        · exact List.forall_mem_nil _
        · exact ih _

/-- An act of reading input changes nothing of the stack when no level is left. -/
theorem stack_of_left {s : Session σ ω} (h : s.levels = []) {a : Act σ ω} (ha : IsInput a) :
    (s.act a).shell.stack = s.shell.stack := by
  cases a with
  | read text pos c =>
    have htop : s.shell.stack.top? = none := List.head?_eq_none_iff.2 h
    rw [act, readChar, htop]
    rfl
  | close continuing interactive =>
    have hleft : (s.endInput continuing interactive).shell.stack.levels = [] := by
      rw [endInput_stack]
      exact h
    rw [act, closeLevel]
    simp only [Shell.pop_nil hleft, endInput_stack]
  | queue | drop | outside => rfl
  | statement | pushRoot | push | pop | edit => exact ha.elim

/-- **When no level is left**, reading input changes nothing of the stack. -/
theorem after_left {s : Session σ ω} (h : s.levels = []) {acts : List (Act σ ω)}
    (hacts : ∀ a ∈ acts, IsInput a) : (s.after acts).shell.stack = s.shell.stack := by
  induction acts generalizing s with
  | nil => rfl
  | cons a acts ih =>
    obtain ⟨ha, hacts⟩ := List.forall_mem_cons.1 hacts
    have hstack := stack_of_left h ha
    exact (ih ((congrArg Stack.levels hstack).trans h) hacts).trans hstack

/-- **The last level is left** with a value, and the value is what is left. -/
theorem stack_of_last {s : Session σ ω} {a : Act σ ω} {value : Option Value} {t : Shell σ ω}
    (h : s.departure? a = some (value, t)) {level : Level σ} (hlast : t.stack.levels = [level]) :
    (s.act a).shell.stack = { exitValue := value } := by
  rw [(stack_of_departure h).2, Shell.pop, hlast]

/-! ## Inputs -/

/-- What a session can be given to read. -/
inductive Input where
  | feed (text : String)
  | run (source : LineSource)
deriving DecidableEq, Repr

/-- Gives an input to a session. -/
def input (s : Session σ ω) : Input → Session σ ω
  | .feed text => (s.feed text).2
  | .run source => (s.run source).session

/-- Gives inputs to a session, one after the other. -/
def afterInputs (s : Session σ ω) (inputs : List Input) : Session σ ω := inputs.foldl input s

/-- The acts that an input comes down to. -/
def inputActs (s : Session σ ω) : Input → List (Act σ ω)
  | .feed text => s.feedActs text
  | .run source => s.runActs source

/-- The acts that inputs come down to. -/
def actsOf : List Input → Session σ ω → List (Act σ ω)
  | [], _ => []
  | i :: inputs, s => s.inputActs i ++ actsOf inputs (s.input i)

theorem after_actsOf (inputs : List Input) (s : Session σ ω) :
    s.after (actsOf inputs s) = s.afterInputs inputs := by
  induction inputs generalizing s with
  | nil => rfl
  | cons i inputs ih =>
    have hinput : s.after (s.inputActs i) = s.input i := by
      cases i with
      | feed text => exact s.after_feedActs text
      | run source => exact s.after_runActs source
    rw [actsOf, after_append, hinput]
    exact ih _

theorem isInput_actsOf (inputs : List Input) (s : Session σ ω) :
    ∀ a ∈ actsOf inputs s, IsInput a := by
  induction inputs generalizing s with
  | nil => exact List.forall_mem_nil _
  | cons i inputs ih =>
    refine List.forall_mem_append.2 ⟨?_, ih _⟩
    cases i with
    | feed text => exact s.isInput_feedActs text
    | run source => exact s.isInput_runActs source

/-- What is left of a session after inputs in the course of which the last level was left. -/
structure LeavesStatus (s : Session σ ω) (inputs : List Input) (value : Option Value) : Prop where
  finished : (s.afterInputs inputs).isFinished = true
  /-- the status is that of the value, or of the last statement that was dispatched -/
  status : (s.afterInputs inputs).exitStatus =
    value.elim (lastOf (dispatched (entries (actsOf inputs s) s)) 0) Value.status
  /-- that is the status that was recorded last, unless the reader refused that statement -/
  recorded : (∀ e ∈ (entries (actsOf inputs s) s).getLast?, e.refused = false) →
    (s.afterInputs inputs).exitStatus =
      value.elim (lastOf (entries (actsOf inputs s) s) 0) Value.status

/-- **The final status** is that of the value with which the last level is left, or the one that
    was recorded last; the statements that the reader refused are left out. -/
theorem exitStatus_inputs {s : Session σ ω} (hs : s.lastStatus = 0) {inputs : List Input}
    {before later : List (Act σ ω)} {a : Act σ ω}
    (hacts : actsOf inputs s = before ++ a :: later) {value : Option Value} {t : Shell σ ω}
    (hleft : (s.after before).departure? a = some (value, t)) {level : Level σ}
    (hlast : t.stack.levels = [level]) : s.LeavesStatus inputs value := by
  have hstack := stack_of_last hleft hlast
  have hlater : ∀ b ∈ later, IsInput b := by
    intro b hb
    refine isInput_actsOf inputs s b ?_
    rw [hacts]
    exact List.mem_append_right _ (List.mem_cons_of_mem _ hb)
  have hafter := after_left (congrArg Stack.levels hstack) hlater
  have hend : (s.afterInputs inputs).shell.stack = { exitValue := value } := by
    rw [← after_actsOf, hacts, after_append, after_cons, hafter, hstack]
  have hlevels : (s.afterInputs inputs).shell.stack.levels = [] := congrArg Stack.levels hend
  have hstatus : (s.afterInputs inputs).exitStatus =
      value.elim (lastOf (dispatched (entries (actsOf inputs s) s)) 0) Value.status := by
    rw [exitStatus_of_left hlevels, hend, ← after_actsOf, lastStatus_after, hs]
    cases value <;> rfl
  refine ⟨List.isEmpty_iff.2 hlevels, hstatus, ?_⟩
  intro hlast
  rw [hstatus, lastOf_dispatched_eq hlast]

/-- A statement fails in a nested level, and the end of the input leaves both levels. -/
theorem nesting_leavesStatus :
    let inputs : List Input := [.feed "in; fail\n", .run ⟨[], false⟩]
    nesting.lastStatus = 0 ∧ (nesting.afterInputs inputs).exitStatus = 1 ∧
      nesting.LeavesStatus inputs none := by
  intro inputs
  have hleaves : ((actsOf inputs nesting).getLast?.bind fun a =>
      ((nesting.after (actsOf inputs nesting).dropLast).departure? a).map
        fun p => (p.1, p.2.stack.depth)) = some (none, 1) := by decide +kernel
  obtain ⟨a, hlast, hdeparture⟩ := Option.bind_eq_some_iff.1 hleaves
  obtain ⟨before, hacts⟩ := List.getLast?_eq_some_iff.1 hlast
  rw [hacts, List.dropLast_concat] at hdeparture
  obtain ⟨⟨value, t⟩, hleft, hpair⟩ := Option.map_eq_some_iff.1 hdeparture
  obtain ⟨rfl, hdepth⟩ := Prod.mk.inj hpair
  obtain ⟨level, hlevel⟩ := List.length_eq_one_iff.1 hdepth
  exact ⟨rfl, by decide +kernel, exitStatus_inputs rfl hacts hleft hlevel⟩

/-- **A refused statement is not remembered**: the status of the level is 2, and 0 is left of it. -/
theorem status_refused :
    let inputs : List Input := [.run ⟨[.line "echo ${}"], false⟩]
    entries (actsOf inputs nesting) nesting = [⟨true, 2⟩] ∧
      (nesting.afterInputs inputs).isFinished = true ∧
      (nesting.afterInputs inputs).shell.stack.exitValue = none ∧
      (nesting.afterInputs inputs).exitStatus = 0 := by
  decide +kernel

end NestedShell.Session
