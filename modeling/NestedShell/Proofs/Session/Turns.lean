/-
  Runs, turn by turn.

  A run over a line source takes turns: it asks for a line, and goes on with the answer.  It asks as
  long as there is a level, so it ends, because every line is used up and the end of the input
  leaves a level each time.  It asks for the rest of a statement exactly if the text since the
  reader last started anew ends open.

  * `Reader.AfterText`: a reader that has read the lines of a text; `afterText_answer`: it still has
    after the answer to a request;
  * `Turns` are the turns of a loop that nothing bounds; `turns_runOver`: those of a run are such
    turns;
  * `Turn.Orderly`, `Turns.orderly`: how every turn goes; `Turns.outcome`: how the last one does;
    `Turns.countP_closing`: how many meet the end of the input;
  * `Disciplined` and `run_disciplined` put this together.
-/
import NestedShell.Proofs.Session.EndOfInput
import NestedShell.Proofs.Statement.Faults

namespace NestedShell

namespace Statement

/-- Nothing is left open by no text. -/
theorem not_endsOpen_nil : ¬EndsOpen [] := by
  rintro (hquotes | ⟨before, p, hcs, -⟩)
  · cases hquotes
  · cases before <;> cases hcs

end Statement

namespace Reader

open Statement

/-- The reader has read the lines of a text, and its status is that of the text. -/
structure AfterText (r : Reader) (text : List Char) : Prop where
  stands : r.Stands text
  pending : r.pending = []
  endedLine : r.endedLine = true
  status : r.status = .continuation ↔ EndsOpen text

theorem afterText_fresh : ({} : Reader).AfterText [] :=
  ⟨stands_fresh, rfl, rfl, iff_of_false (by decide) not_endsOpen_nil⟩

/-- What a character that is read leaves as it is. -/
theorem step_kept {r r' : Reader} {vars : Lookup} {pos : Nat} {c : Char} {statement : Option Words}
    (h : r.Settled) (hread : r.step vars pos c = (.ok statement, r')) :
    r'.pending = r.pending ∧ r'.endedLine = r.endedLine := by
  rw [step_eq_read h] at hread
  split at hread <;> cases hread
  exact ⟨rfl, rfl⟩

/-- **After a newline** the status tells whether something is left open. -/
theorem status_step {r r' : Reader} {text : List Char} {vars : Lookup} {pos : Nat}
    {statement : Option Words} (h : r.Stands text)
    (hread : r.step vars pos '\n' = (.ok statement, r')) :
    r'.status = .continuation ↔ EndsOpen (text ++ ['\n']) := by
  rw [step_eq_read h.settled, h.mode] at hread
  split at hread <;> cases hread
  rename_i m d hread
  rw [endsOpen_read hread, status_withState]
  simp

end Reader

namespace Session

open Statement

variable {σ ω : Type} [CommandSet σ ω]

/-! ## Lines -/

/-- A character after which reading goes on has been read. -/
theorem exists_step {s t : Session σ ω} {text : String} {pos : Nat} {c : Char}
    (h : s.readChar text pos c = (none, t)) :
    ∃ vars statement, s.reader.step vars pos c = (.ok statement, t.reader) := by
  have hread := s.charRead text pos c
  rw [h] at hread
  cases hread with
  | unfinished htop hstep => exact ⟨_, _, hstep⟩
  | performed htop hstep hhalt => exact ⟨_, _, hstep.trans (by rw [perform_reader])⟩

/-- When reading halts, the reader starts anew. -/
theorem reader_of_halt {s t : Session σ ω} {text : String} {ps : List (Nat × Char)} {halt : Halt}
    (hs : s.reader.Settled) (h : readChars text ps s = (some halt, t)) : t.reader = {} := by
  induction ps generalizing s with
  | nil => cases h
  | cons p ps ih =>
    obtain ⟨pos, c⟩ := p
    have hread := s.charRead text pos c
    have hsettled := settled_readChar hs text pos c
    rw [readChars] at h
    rcases hchar : s.readChar text pos c with ⟨_ | halt, u⟩
    · rw [hchar] at h hsettled
      exact ih hsettled h
    · rw [hchar] at h hread
      cases h
      cases hread with
      | nowhere | halted => rfl
      | refused htop hstep =>
        rw [Reader.step_eq_read hs] at hstep
        split at hstep <;> cases hstep
        rfl

/-- Characters after which reading goes on have been read. -/
theorem readChars_stands {s t : Session σ ω} {text : String} {ps : List (Nat × Char)}
    {cs : List Char} (hs : s.reader.Stands cs) (h : readChars text ps s = (none, t)) :
    t.reader.Stands (cs ++ ps.map (·.2)) ∧ t.reader.pending = s.reader.pending ∧
      t.reader.endedLine = s.reader.endedLine := by
  induction ps generalizing s cs with
  | nil =>
    cases h
    rw [List.map_nil, List.append_nil]
    exact ⟨hs, rfl, rfl⟩
  | cons p ps ih =>
    obtain ⟨pos, c⟩ := p
    rw [readChars] at h
    rcases hchar : s.readChar text pos c with ⟨_ | halt, u⟩
    · rw [hchar] at h
      obtain ⟨vars, statement, hstep⟩ := exists_step hchar
      obtain ⟨statement', r, hread, hstands⟩ | ⟨cause, hread, -⟩ :=
        Reader.stands_step hs vars pos c
      · obtain ⟨-, rfl⟩ := Prod.mk.inj (hstep.symm.trans hread)
        obtain ⟨hpending, hended⟩ := Reader.step_kept hs.settled hstep
        obtain ⟨hthere, hpending', hended'⟩ := ih hstands h
        rw [List.append_assoc] at hthere
        exact ⟨hthere, hpending'.trans hpending, hended'.trans hended⟩
      · rw [hstep] at hread
        cases hread
    · rw [hchar] at h
      cases h

omit [CommandSet σ ω] in
/-- A line is queued alone for a reader that has read all lines before it. -/
theorem queue_line {s : Session σ ω} {cs : List Char} (h : s.reader.AfterText cs) (line : String) :
    (s.queue (line.push '\n')).1 = Text.offsets 0 (line.toList ++ ['\n']) ∧
      (s.queue (line.push '\n')).2.reader.Stands cs ∧
      (s.queue (line.push '\n')).2.reader.pending = [] ∧
      (s.queue (line.push '\n')).2.reader.endedLine = true := by
  have hne : line.push '\n' ≠ "" := (Reader.isLines_push line).ne_empty
  have hstands := h.stands.push (line.push '\n')
  refine ⟨?_, ⟨hstands.settled, hstands.mode, hstands.named⟩, rfl, ?_⟩
  · simp only [queue, Reader.push, hne, if_false, h.pending, h.endedLine, Bool.not_true,
      Bool.false_and, Bool.false_eq_true, List.append_nil, List.nil_append, String.toList_push]
  · exact (s.reader.endedLine_push hne).trans (Reader.isLines_push line)

/-- **A line after which reading goes on** has been read. -/
theorem afterText_line {s t : Session σ ω} {cs : List Char} (h : s.reader.AfterText cs)
    {line : String} (hread : s.readPiece (line.push '\n') = (none, t)) :
    t.reader.AfterText (cs ++ (line.toList ++ ['\n'])) := by
  obtain ⟨hqueued, hstands, hpending, hended⟩ := queue_line h line
  change readChars _ (s.queue (line.push '\n')).1 (s.queue (line.push '\n')).2 = _ at hread
  rw [hqueued, Text.offsets_append, readChars_append] at hread
  rcases hinit : readChars (line.push '\n') (Text.offsets 0 line.toList)
    (s.queue (line.push '\n')).2 with ⟨_ | halt, u⟩
  · rw [hinit] at hread
    obtain ⟨hthere, hpending', hended'⟩ := readChars_stands hstands hinit
    obtain ⟨hlast, hpending'', hended''⟩ := readChars_stands hthere hread
    rw [Reader.map_snd_offsets] at hthere hlast
    rw [Reader.map_snd_offsets, List.append_assoc] at hlast
    refine ⟨hlast, hpending''.trans (hpending'.trans hpending),
      hended''.trans (hended'.trans hended), ?_⟩
    -- only the last character decides about the status
    simp only [Text.offsets, readChars] at hread
    rcases hchar : u.readChar (line.push '\n') (0 + Text.byteLength line.toList) '\n' with
      ⟨_ | halt, v⟩
    · rw [hchar] at hread
      cases hread
      obtain ⟨vars, statement, hstep⟩ := exists_step hchar
      have hstatus := Reader.status_step hthere hstep
      rwa [List.append_assoc] at hstatus
    · rw [hchar] at hread
      cases hread
  · rw [hinit] at hread
    cases hread

theorem reader_of_halted_line {s t : Session σ ω} {cs : List Char} (h : s.reader.AfterText cs)
    {line : String} {halt : Halt} (hread : s.readPiece (line.push '\n') = (some halt, t)) :
    t.reader = {} := by
  obtain ⟨-, hstands, -, -⟩ := queue_line h line
  exact reader_of_halt hstands.settled hread

/-- The text that has been fed since the reader last started anew: after a fault, an interrupt, or
    the end of the input. -/
def textAfter (text : List Char) (s : Session σ ω) : LineAnswer → List Char
  | .line line =>
    match (s.readPiece (line.push '\n')).1 with
    | none => text ++ (line.toList ++ ['\n'])
    | some _ => []
  | .endOfInput | .failed _ => []

/-- **After the answer to a request** the reader has read the text since it last started anew. -/
theorem afterText_answer {s t : Session σ ω} {text : List Char} (h : s.reader.AfterText text)
    (hlevel : s.isFinished = false) {request : LineRequest} {interactive : Bool} {a : LineAnswer}
    (hanswer : s.answer request interactive a = .ok t) :
    t.reader.AfterText (s.textAfter text a) := by
  cases a with
  | line line =>
    cases hanswer
    rw [feed_of_not_isFinished hlevel, textAfter]
    rcases hread : s.readPiece (line.push '\n') with ⟨_ | halt, u⟩
    · exact afterText_line h hread
    · rw [reader_of_halted_line h hread]
      exact Reader.afterText_fresh
  | endOfInput =>
    cases hanswer
    exact Reader.afterText_fresh
  | failed message => cases hanswer

/-! ## Turns -/

/-- A turn of a run. -/
structure Turn (σ ω : Type) where
  /-- the text that has been fed since the reader last started anew -/
  text : List Char
  before : Session σ ω
  request : LineRequest
  answer : LineAnswer
  /-- the session that goes on, or that is left when the answer is a failure -/
  next : Session σ ω

/-- The turns of a loop that asks as long as there is a level.  When the answers are used up, the
    input has ended. -/
inductive Turns (interactive : Bool) : List Char → List LineAnswer → Session σ ω →
    List (Turn σ ω) → Except Fault Unit → Session σ ω → Prop where
  /-- there is no level -/
  | done {text : List Char} {answers : List LineAnswer} {s : Session σ ω}
      (hrequest : s.request? = none) : Turns interactive text answers s [] (.ok ()) s
  /-- the answer is a failure -/
  | failure {text : List Char} {answers : List LineAnswer} {s t : Session σ ω}
      {request : LineRequest} {fault : Fault} (hrequest : s.request? = some (request, t))
      (hanswer : t.answer request interactive (answers.headD .endOfInput) = .error fault) :
    Turns interactive text answers s [⟨text, s, request, answers.headD .endOfInput, t⟩]
      (.error fault) t
  /-- the loop goes on with the answer -/
  | more {text : List Char} {answers : List LineAnswer} {s t u v : Session σ ω}
      {request : LineRequest} {turns : List (Turn σ ω)} {result : Except Fault Unit}
      (hrequest : s.request? = some (request, t))
      (hanswer : t.answer request interactive (answers.headD .endOfInput) = .ok u)
      (hrest : Turns interactive (t.textAfter text (answers.headD .endOfInput)) answers.tail u
        turns result v) :
    Turns interactive text answers s
      (⟨text, s, request, answers.headD .endOfInput, u⟩ :: turns) result v

omit [CommandSet σ ω] in
/-- What a request is made of, and that making it changes nothing but the console. -/
theorem request?_eq_some {s t : Session σ ω} {request : LineRequest}
    (h : s.request? = some (request, t)) :
    ∃ level console, s.shell.stack.top? = some level ∧ t = s.onConsole console ∧
      request.continuing = decide (s.reader.status = .continuation) ∧
      request.prompt = (s.shell.console.prompt level.env.lookup ((level.env.get?
        (if request.continuing then secondaryPrompt else primaryPrompt)).getD "")).1 := by
  rw [request?] at h
  split at h
  · cases h
  · rename_i level htop
    cases h
    refine ⟨level, fun _ => _, htop, rfl, rfl, ?_⟩
    simp only [decide_eq_true_eq]
    rfl

omit [CommandSet σ ω] in
theorem request?_eq_none {s : Session σ ω} :
    s.request? = none ↔ s.shell.stack.levels = [] := by
  rw [← List.head?_eq_none_iff, request?]
  split
  · rename_i htop
    exact iff_of_true rfl htop
  · rename_i level htop
    refine iff_of_false (by simp) ?_
    intro hnone
    exact absurd (htop.symm.trans hnone) (by simp)

theorem levels_closeLevel (s : Session σ ω) (continuing interactive : Bool) :
    (s.closeLevel continuing interactive).shell.stack.levels = s.shell.stack.levels.tail := by
  rw [closeLevel, Shell.levels_pop, endInput_stack]

/-- **Leaving levels at the end of the input** takes one turn for each. -/
theorem turns_closeLevels (interactive : Bool) (text : List Char) (s : Session σ ω) :
    let report := closeLevels interactive s.shell.stack.depth s
    ∃ turns, Turns interactive text [] s turns report.result report.session ∧
      report.requests = turns.map (·.request) := by
  generalize hdepth : s.shell.stack.depth = depth
  induction depth generalizing s text with
  | zero => exact ⟨[], .done (request?_eq_none.2 (List.length_eq_zero_iff.1 hdepth)), rfl⟩
  | succ depth ih =>
    rw [closeLevels]
    cases hrequest : s.request? with
    | none => exact ⟨[], .done hrequest, rfl⟩
    | some turn =>
      obtain ⟨request, t⟩ := turn
      obtain ⟨level, console, -, rfl, -, -⟩ := request?_eq_some hrequest
      have hleft : ((s.onConsole console).closeLevel request.continuing
          interactive).shell.stack.depth = depth := by
        rw [Stack.depth, levels_closeLevel, List.length_tail]
        exact congrArg (· - 1) hdepth
      obtain ⟨turns, hturns, hrequests⟩ := ih _ _ hleft
      exact ⟨_ :: turns, .more hrequest rfl hturns, congrArg (request :: ·) hrequests⟩

/-- **A run takes the turns** of a loop that nothing bounds. -/
theorem turns_runOver (interactive : Bool) (text : List Char) (answers : List LineAnswer)
    (s : Session σ ω) :
    let report := runOver interactive answers s
    ∃ turns, Turns interactive text answers s turns report.result report.session ∧
      report.requests = turns.map (·.request) := by
  induction answers generalizing s text with
  | nil => exact turns_closeLevels interactive text s
  | cons a answers ih =>
    rw [runOver]
    cases hrequest : s.request? with
    | none => exact ⟨[], .done hrequest, rfl⟩
    | some turn =>
      obtain ⟨request, t⟩ := turn
      dsimp only
      rcases hanswer : t.answer request interactive a with fault | u
      · exact ⟨[_], .failure hrequest hanswer, rfl⟩
      · obtain ⟨turns, hturns, hrequests⟩ := ih (t.textAfter text a) u
        exact ⟨_ :: turns, .more hrequest hanswer hturns, congrArg (request :: ·) hrequests⟩

/-! ## How turns go -/

/-- How a turn goes. -/
structure Turn.Orderly (turn : Turn σ ω) : Prop where
  /-- there is a level, and what is asked with is its prompt -/
  prompt : ∃ level, turn.before.shell.stack.top? = some level ∧
    turn.request.prompt = (turn.before.shell.console.prompt level.env.lookup ((level.env.get?
      (if turn.request.continuing then secondaryPrompt else primaryPrompt)).getD "")).1
  /-- the rest of a statement is asked for exactly if something is left open -/
  continuing : turn.request.continuing = true ↔ EndsOpen turn.text
  /-- the end of the input leaves one level -/
  closes : turn.answer = .endOfInput →
    turn.next.shell.stack.levels = turn.before.shell.stack.levels.tail

omit [CommandSet σ ω] in
theorem orderly_request {s t u : Session σ ω} {text : List Char} (h : s.reader.AfterText text)
    {request : LineRequest} (hrequest : s.request? = some (request, t)) {a : LineAnswer}
    (hcloses : a = .endOfInput → u.shell.stack.levels = s.shell.stack.levels.tail) :
    (⟨text, s, request, a, u⟩ : Turn σ ω).Orderly := by
  obtain ⟨level, console, htop, -, hcontinuing, hprompt⟩ := request?_eq_some hrequest
  refine ⟨⟨level, htop, hprompt⟩, ?_, hcloses⟩
  rw [hcontinuing, decide_eq_true_eq]
  exact h.status

variable {interactive : Bool} {text : List Char} {answers : List LineAnswer} {s v : Session σ ω}
  {turns : List (Turn σ ω)} {result : Except Fault Unit}

/-- **Every turn goes** in that way. -/
theorem Turns.orderly (h : Turns interactive text answers s turns result v)
    (hs : s.reader.AfterText text) : ∀ turn ∈ turns, turn.Orderly := by
  induction h with
  | done => exact List.forall_mem_nil _
  | @failure text answers s t request fault hrequest hanswer =>
    refine List.forall_mem_singleton.2 (orderly_request hs hrequest ?_)
    intro hend
    rw [hend] at hanswer
    cases hanswer
  | @more text answers s t u v request turns result hrequest hanswer hrest ih =>
    obtain ⟨level, console, htop, rfl, -, -⟩ := request?_eq_some hrequest
    refine List.forall_mem_cons.2 ⟨orderly_request hs hrequest ?_, ih ?_⟩
    · intro hend
      rw [hend] at hanswer
      cases hanswer
      exact levels_closeLevel ..
    · have hthere : (s.onConsole console).reader.AfterText text := hs
      exact afterText_answer hthere (isFinished_of_top htop) hanswer

/-- How the last turn goes: either no level is left, or the answer was a failure, and nothing has
    changed since. -/
theorem Turns.outcome (h : Turns interactive text answers s turns result v) :
    result = .ok () ∧ v.shell.stack.levels = [] ∧
        (∀ turn ∈ turns, ∀ message, turn.answer ≠ .failed message) ∨
      ∃ earlier last message, turns = earlier ++ [last] ∧ last.answer = .failed message ∧
        (∀ turn ∈ earlier, ∀ message, turn.answer ≠ .failed message) ∧
        result = .error ⟨.reported .io message none, none⟩ ∧
        v.shell.stack = last.before.shell.stack ∧ v.reader = last.before.reader := by
  induction h with
  | done hrequest => exact .inl ⟨rfl, request?_eq_none.1 hrequest, List.forall_mem_nil _⟩
  | @failure text answers s t request fault hrequest hanswer =>
    obtain ⟨level, console, -, rfl, -, -⟩ := request?_eq_some hrequest
    cases ha : answers.headD .endOfInput with
    | line line => rw [ha] at hanswer; cases hanswer
    | endOfInput => rw [ha] at hanswer; cases hanswer
    | failed message =>
      rw [ha] at hanswer
      cases hanswer
      exact .inr ⟨[], _, message, rfl, rfl, List.forall_mem_nil _, rfl, rfl, rfl⟩
  | @more text answers s t u v request turns result hrequest hanswer hrest ih =>
    have hgoes (message : String) : answers.headD .endOfInput ≠ .failed message := by
      intro ha
      rw [ha] at hanswer
      cases hanswer
    obtain ⟨hok, hleft, hnone⟩ | ⟨earlier, last, message, rfl, hlast, hnone, hfailed⟩ := ih
    · exact .inl ⟨hok, hleft, List.forall_mem_cons.2 ⟨hgoes, hnone⟩⟩
    · exact .inr ⟨_ :: earlier, last, message, rfl, hlast,
        List.forall_mem_cons.2 ⟨hgoes, hnone⟩, hfailed⟩

/-- Whether the input has ended for a turn. -/
def Turn.closing (turn : Turn σ ω) : Bool := turn.answer = .endOfInput

theorem Turns.countP_closing_nil (h : Turns interactive text [] s turns result v) :
    turns.countP Turn.closing = s.shell.stack.depth := by
  generalize hanswers : ([] : List LineAnswer) = answers at h
  induction h with
  | done hrequest => exact (List.length_eq_zero_iff.2 (request?_eq_none.1 hrequest)).symm
  | failure hrequest hanswer =>
    subst hanswers
    cases hanswer
  | @more text answers s t u v request turns result hrequest hanswer hrest ih =>
    subst hanswers
    cases hanswer
    obtain ⟨level, console, htop, rfl, -, -⟩ := request?_eq_some hrequest
    obtain ⟨below, hlevels⟩ := Stack.exists_levels htop
    rw [List.countP_cons_of_pos rfl, ih rfl, Stack.depth, levels_closeLevel]
    show (s.shell.stack.levels.tail).length + 1 = s.shell.stack.levels.length
    rw [hlevels]
    rfl

/-- Lines are not read when there is no level. -/
theorem afterLines_of_request? (h : s.request? = none) (lines : List String) :
    s.afterLines lines = s := by
  induction lines with
  | nil => rfl
  | cons line lines ih =>
    rw [afterLines, List.foldl_cons, afterLine, h]
    exact ih

theorem afterLines_cons {t : Session σ ω} {request : LineRequest}
    (h : s.request? = some (request, t)) (line : String) (lines : List String) :
    s.afterLines (line :: lines) = (t.feed (line.push '\n')).2.afterLines lines := by
  rw [afterLines, List.foldl_cons, afterLine, h, ← afterLines]

/-- **The end of the input is met** once for every level that is left after the lines. -/
theorem Turns.countP_closing {lines : List String}
    (h : Turns interactive text (lines.map .line) s turns result v) :
    turns.countP Turn.closing = (s.afterLines lines).shell.stack.depth := by
  induction lines generalizing text s turns with
  | nil => exact h.countP_closing_nil
  | cons line lines ih =>
    cases h with
    | done hrequest =>
      rw [afterLines_of_request? hrequest]
      exact (List.length_eq_zero_iff.2 (request?_eq_none.1 hrequest)).symm
    | failure hrequest hanswer => cases hanswer
    | more hrequest hanswer hrest =>
      cases hanswer
      rw [afterLines_cons hrequest, List.countP_cons_of_neg Bool.false_ne_true]
      exact ih hrest

/-- The answers are those of the line source. -/
theorem Turns.answer_mem (h : Turns interactive text answers s turns result v) :
    ∀ turn ∈ turns, turn.answer ∈ answers ∨ turn.answer = .endOfInput := by
  have hhead (answers : List LineAnswer) :
      answers.headD .endOfInput ∈ answers ∨ answers.headD .endOfInput = .endOfInput := by
    cases answers with
    | nil => exact .inr rfl
    | cons a answers => exact .inl (List.mem_cons_self ..)
  induction h with
  | done => exact List.forall_mem_nil _
  | failure => exact List.forall_mem_singleton.2 (hhead _)
  | more hrequest hanswer hrest ih =>
    exact List.forall_mem_cons.2
      ⟨hhead _, fun turn hturn => (ih turn hturn).imp_left List.mem_of_mem_tail⟩

/-- A run over a line source ends, and reads with discipline. -/
structure Disciplined (s : Session σ ω) (source : LineSource) (turns : List (Turn σ ω)) :
    Prop where
  /-- the run takes these turns, though nothing bounds their number, and no others -/
  taken : Turns source.interactive [] source.answers s turns (s.run source).result
    (s.run source).session
  requests : (s.run source).requests = turns.map (·.request)
  each : ∀ turn ∈ turns, turn.Orderly
  /-- if no answer is a failure, no level is left -/
  left : (∀ message, .failed message ∉ source.answers) →
    (s.run source).result = .ok () ∧ (s.run source).session.shell.stack.levels = []
  /-- after lines only, the end of the input is met once for every level that is left -/
  closing : ∀ lines, source.answers = lines.map .line →
    turns.countP Turn.closing = (s.afterLines lines).shell.stack.depth
  /-- a failure ends the run, and leaves the levels and the reader as they were -/
  failed : ∀ turn ∈ turns, ∀ message, turn.answer = .failed message →
    (s.run source).result = .error ⟨.reported .io message none, none⟩ ∧
      (s.run source).session.shell.stack = turn.before.shell.stack ∧
      (s.run source).session.reader = turn.before.reader

/-- **A run ends, and reads with discipline**, whatever the lines are. -/
theorem run_disciplined {s : Session σ ω} (hs : s.reader = {}) (source : LineSource) :
    ∃ turns, s.Disciplined source turns := by
  obtain ⟨turns, htaken, hrequests⟩ := turns_runOver source.interactive [] source.answers s
  have hfresh : s.reader.AfterText [] := hs ▸ Reader.afterText_fresh
  refine ⟨turns, htaken, hrequests, htaken.orderly hfresh, ?_, ?_, ?_⟩
  · intro hnone
    obtain ⟨hok, hleft, -⟩ | ⟨earlier, last, message, rfl, hlast, -⟩ := htaken.outcome
    · exact ⟨hok, hleft⟩
    · have hmem := htaken.answer_mem last (by simp)
      rw [hlast] at hmem
      exact (hmem.elim (hnone message) nofun).elim
  · intro lines hlines
    rw [hlines] at htaken
    exact htaken.countP_closing
  · intro turn hturn message hmessage
    obtain ⟨-, -, hnone⟩ | ⟨earlier, last, message', rfl, hlast, hnone, hfailed⟩ := htaken.outcome
    · exact absurd hmessage (hnone turn hturn message)
    · obtain hearlier | hhere := List.mem_append.1 hturn
      · exact absurd hmessage (hnone turn hearlier message)
      · obtain rfl := List.mem_singleton.1 hhere
        obtain rfl : message' = message := LineAnswer.failed.inj (hlast.symm.trans hmessage)
        exact hfailed

/-- Two levels are left by the end of the input, inside a quotation. -/
theorem nesting_disciplined :
    nesting.reader = {} ∧
      (nesting.afterLines ["in", "echo \"open"]).shell.stack.depth = 2 ∧
      ∃ turns, nesting.Disciplined ⟨["in", "echo \"open"].map .line, false⟩ turns :=
  ⟨rfl, by decide +kernel, run_disciplined rfl _⟩

end Session

end NestedShell
