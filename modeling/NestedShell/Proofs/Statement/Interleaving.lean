/-
  Queuing and reading in any order.

  A reader can be given more input while some is still pending.  What stands between two pieces is
  decided when the second one is queued, from what has been read by then; so reading later is only
  the same as reading at once where that decision comes out the same.

  * `Reader.answers` are the statements that calls of `push` and `next` return, in any order,
    followed by calls of `next` until nothing is left;
  * `Reader.answers_eq_ahead`: they are read from one text, made of the pieces with the gaps
    decided at each `push`, wherever the calls of `next` stand;
  * `Reader.InStep`: every gap is the one that would be decided if everything had been read;
  * `Reader.answers_eq_feedEach`: then the statements are those of reading every piece before the
    next one is queued; `Reader.inStep_of_lines`: so it is when every piece ends a line.
-/
import NestedShell.Proofs.Statement.Pieces

namespace NestedShell.Statement

/-! ## Outcomes -/

/-- What a text is read as, if there is no fault: the statements, and where the text leads to but
    for the flag of a joined line. -/
def outcome (vars : Lookup) (cs : List Char) (m : Mode) (d : Draft) :
    Option (List Words × Mode × Draft) :=
  match scan vars cs m d with
  | .ok (statements, m', d') => some (statements, m', d'.plain)
  | .error _ => none

/-- What comes after some statements. -/
def after (statements : List Words) (x : List Words × Mode × Draft) : List Words × Mode × Draft :=
  (statements ++ x.1, x.2)

@[simp] theorem after_nil : after [] = id := rfl

theorem outcome_cons (vars : Lookup) (c : Char) (cs : List Char) (m : Mode) (d : Draft) :
    outcome vars (c :: cs) m d =
      match read vars m c d with
      | .ok (m', d') => (outcome vars cs m' { d' with statement := none }).map
          (after (d'.statement.filter (!·.isEmpty)).toList)
      | .error _ => none := by
  rw [outcome, scan]
  rcases read vars m c d with cause | ⟨m', d'⟩
  · rfl
  · simp only [outcome]
    rcases scan vars cs m' { d' with statement := none } with ⟨cause, n⟩ | ⟨statements, r⟩ <;> rfl

theorem outcome_alike {d d' : Draft} (h : d.plain = d'.plain) (vars : Lookup) (cs : List Char)
    (m : Mode) : outcome vars cs m d = outcome vars cs m d' := by
  have hsame := scan_alike h vars cs m
  unfold outcome
  generalize scan vars cs m d = p at hsame ⊢
  generalize scan vars cs m d' = p' at hsame ⊢
  cases hsame with
  | refused => rfl
  | read hdraft => simp only [hdraft]

/-- **A text is read on** from where another one leads. -/
theorem outcome_append (vars : Lookup) (xs ys : List Char) (m : Mode) (d : Draft) :
    outcome vars (xs ++ ys) m d =
      (outcome vars xs m d).bind fun x => (outcome vars ys x.2.1 x.2.2).map (after x.1) := by
  rw [outcome, outcome.eq_def vars xs]
  cases hscan : scan vars xs m d with
  | error e => rw [scan_append_error hscan]; rfl
  | ok result =>
    obtain ⟨statements, m', d'⟩ := result
    rw [scan_append hscan]
    simp only [Option.bind_some]
    rw [outcome_alike d'.plain_plain, outcome]
    rcases scan vars ys m' d' with ⟨cause, n⟩ | ⟨statements', r⟩ <;> rfl

theorem outcome_space (vars : Lookup) {d : Draft} (hword : d.word = "") (hd : d.statement = none)
    (cs : List Char) :
    outcome vars (' ' :: cs) (.text .bare) d = outcome vars cs (.text .bare) d := by
  have hsame : SameScan cs.getLast? (scan vars cs (.text .bare) d)
      (scan vars (' ' :: cs) (.text .bare) d) := scan_space hword hd cs
  unfold outcome
  generalize scan vars cs (.text .bare) d = p at hsame ⊢
  generalize scan vars (' ' :: cs) (.text .bare) d = p' at hsame ⊢
  cases hsame with
  | refused => rfl
  | read hdraft => simp only [hdraft]

end NestedShell.Statement

namespace NestedShell.Reader

open NestedShell.Statement

/-! ## Calls -/

/-- What a reader can be asked to do. -/
inductive Call where
  | push (text : String)
  | next
deriving DecidableEq, Repr

/-- The pieces that are queued by calls. -/
def Call.texts : List Call → List String
  | [] => []
  | .push text :: calls => text :: texts calls
  | .next :: calls => texts calls

/-- The statements that calls return, and those that are left: at the end everything is read. -/
def answers (vars : Lookup) : List Call → Reader → Except Fault (List Words)
  | [], r => (drainOf vars r.pending r).1
  | .push text :: calls, r => answers vars calls (r.push text)
  | .next :: calls, r =>
    match r.next vars with
    | (.ok statement, r') => (answers vars calls r').map (statement.toList ++ ·)
    | (.error fault, _) => .error fault

theorem step_pending (vars : Lookup) (pos : Nat) (c : Char) (r : Reader) (ps : List (Nat × Char)) :
    ({ r with pending := ps } : Reader).step vars pos c =
      match r.step vars pos c with
      | (.ok statement, r') => (.ok statement, { r' with pending := ps })
      | (.error fault, r') => (.error fault, r') := by
  simp only [step]
  rcases machine.advance vars 1 c r.run with ⟨stop | _, run⟩ <;> rfl

/-- Draining does not depend on what is pending. -/
theorem drainOf_pending (vars : Lookup) (cs : List (Nat × Char)) (r : Reader)
    (ps : List (Nat × Char)) : drainOf vars cs { r with pending := ps } = drainOf vars cs r := by
  induction cs generalizing r with
  | nil => rfl
  | cons p cs ih =>
    obtain ⟨pos, c⟩ := p
    rw [drainOf, drainOf, step_pending]
    rcases r.step vars pos c with ⟨fault | statement, r'⟩
    · rfl
    · cases statement <;> simp only [ih]

theorem drainOf_eq_nextOf (vars : Lookup) (cs : List (Nat × Char)) (r : Reader) :
    (drainOf vars cs r).1 =
      match nextOf vars cs r with
      | (.ok statement, r') => (drainOf vars r'.pending r').1.map (statement.toList ++ ·)
      | (.error fault, _) => .error fault := by
  induction cs generalizing r with
  | nil => rfl
  | cons p cs ih =>
    obtain ⟨pos, c⟩ := p
    rw [drainOf, nextOf]
    rcases r.step vars pos c with ⟨fault | statement, r'⟩
    · rfl
    · cases statement with
      | none => exact ih r'
      | some statement =>
        simp only [drainOf_pending]
        rcases drainOf vars cs r' with ⟨fault | statements, r''⟩ <;> rfl

/-- What is read at the end is what more calls of `next` return. -/
theorem answers_append_next (vars : Lookup) (calls : List Call) (r : Reader) :
    answers vars (calls ++ [.next]) r = answers vars calls r := by
  induction calls generalizing r with
  | nil => exact (drainOf_eq_nextOf vars r.pending r).symm
  | cons call calls ih =>
    cases call with
    | push text => exact ih (r.push text)
    | next => simp only [List.cons_append, answers, ih]

theorem toOption_eq_some_iff {α ε : Type} {x : Except ε α} {a : α} :
    x.toOption = some a ↔ x = .ok a := by
  cases x <;> simp [Except.toOption]

/-! ## What is ahead of a reader -/

/-- The characters that are not read yet. -/
def unread (r : Reader) : List Char := r.pending.map (·.2)

/-- What a reader has ahead, when certain characters follow the ones that are not read yet. -/
def ahead (vars : Lookup) (r : Reader) (cs : List Char) : Option (List Words × Mode × Draft) :=
  outcome vars (r.unread ++ cs) r.run.state r.draft

theorem ahead_eq_bind (vars : Lookup) (r : Reader) (cs : List Char) :
    r.ahead vars cs =
      (r.ahead vars []).bind fun x => (outcome vars cs x.2.1 x.2.2).map (after x.1) := by
  rw [ahead, outcome_append, ahead, List.append_nil]

/-- What a call of `next` comes to; `x` is what was ahead before it. -/
inductive NextRead (vars : Lookup) (endedLine : Bool)
    (x : List Char → Option (List Words × Mode × Draft)) :
    Except Fault (Option Words) × Reader → Prop where
  | refused {fault : Fault} {r' : Reader} (ahead : ∀ cs, x cs = none) :
    NextRead vars endedLine x (.error fault, r')
  | read {statement : Option Words} {r' : Reader} (settled : r'.Settled)
      (ended : r'.endedLine = endedLine) (clean : r'.draft.statement = none)
      (ahead : ∀ cs, x cs = (r'.ahead vars cs).map (after statement.toList)) :
    NextRead vars endedLine x (.ok statement, r')

theorem nextOf_read {r : Reader} (hr : r.Settled) (hclean : r.draft.statement = none)
    (vars : Lookup) (ps : List (Nat × Char)) :
    NextRead vars r.endedLine
      (fun cs => outcome vars (ps.map (·.2) ++ cs) r.run.state r.draft) (nextOf vars ps r) := by
  induction ps generalizing r with
  | nil => exact .read hr rfl hclean fun cs => by simp [ahead, unread, draft]
  | cons p ps ih =>
    obtain ⟨pos, c⟩ := p
    rw [nextOf, step_eq_read hr]
    simp only [List.map_cons, List.cons_append, outcome_cons]
    cases read vars r.run.state c r.draft with
    | error cause => exact .refused fun cs => rfl
    | ok result =>
      obtain ⟨m, d⟩ := result
      dsimp only
      cases d.statement.filter (!·.isEmpty) with
      | none =>
        simp only [Option.toList_none, after_nil, Option.map_id_fun, id]
        exact ih (r.settled_withState m { d with statement := none }) rfl
      | some statement =>
        refine .read (r.settled_withState m { d with statement := none }) rfl rfl fun cs => ?_
        rfl

/-- **A call of `next`** takes the statement that it returns from what is ahead. -/
theorem nextRead {r : Reader} (hr : r.Settled) (hclean : r.draft.statement = none)
    (vars : Lookup) : NextRead vars r.endedLine (r.ahead vars) (r.next vars) :=
  nextOf_read hr hclean vars r.pending

/-! ## Queuing -/

/-- What stands in front of a piece that is queued. -/
def gap (r : Reader) : List Char :=
  if !r.endedLine && !r.isClear && !r.awaitsEscaped then [' '] else []

theorem statement_push (r : Reader) (text : String) :
    (r.push text).draft.statement = r.draft.statement := by
  rw [push]
  split <;> rfl

theorem endedLine_push (r : Reader) {text : String} (hne : text ≠ "") :
    (r.push text).endedLine = Text.endsWith '\n' text := by
  rw [push, if_neg hne]

theorem unread_push (r : Reader) {text : String} (hne : text ≠ "") :
    (r.push text).unread = r.unread ++ (r.gap ++ text.toList) := by
  rw [unread, push, if_neg hne]
  simp only [List.map_append, map_snd_offsets, List.append_assoc, unread, gap,
    apply_ite (List.map _), List.map_cons, List.map_nil]

/-- What is ahead after a piece was queued: the gap and the piece come before what follows. -/
theorem ahead_push (vars : Lookup) (r : Reader) {text : String} (hne : text ≠ "")
    (cs : List Char) :
    (r.push text).ahead vars cs = r.ahead vars (r.gap ++ text.toList ++ cs) := by
  have hplain : (r.push text).draft.plain = r.draft.plain := by rw [push, if_neg hne]; rfl
  have hmode : (r.push text).run.state = r.run.state := by rw [push, if_neg hne]
  rw [ahead, ahead, outcome_alike hplain, hmode, unread_push r hne, List.append_assoc]

/-- What calls queue, with the gaps that are decided when they queue it. -/
def coming (vars : Lookup) : List Call → Reader → List Char
  | [], _ => []
  | .push text :: calls, r =>
    (if text = "" then [] else r.gap ++ text.toList) ++ coming vars calls (r.push text)
  | .next :: calls, r => coming vars calls (r.next vars).2

/-- **What calls return** is read from one text: what is pending, and what they queue. -/
theorem answers_eq_ahead {r : Reader} (hr : r.Settled) (hclean : r.draft.statement = none)
    (vars : Lookup) (calls : List Call) :
    (answers vars calls r).toOption = (r.ahead vars (coming vars calls r)).map (·.1) := by
  induction calls generalizing r with
  | nil =>
    rw [answers, drainOf_eq_scan hr, coming, ahead, List.append_nil, outcome, unread]
    rcases scan vars _ r.run.state r.draft with ⟨cause, n⟩ | ⟨statements, m, d⟩ <;> rfl
  | cons call calls ih =>
    cases call with
    | push text =>
      rw [answers, coming]
      by_cases hne : text = ""
      · rw [if_pos hne, List.nil_append, push, if_pos hne]
        exact ih hr hclean
      · have hclean' := (r.statement_push text).trans hclean
        rw [if_neg hne, ih (hr.push text) hclean', ahead_push vars r hne]
    | next =>
      have hnext := nextRead hr hclean vars
      rw [answers, coming]
      generalize r.next vars = p at hnext ⊢
      cases hnext with
      | refused hahead => rw [hahead]; rfl
      | @read statement r' hr' _ hclean' hahead =>
        have hmap : ((answers vars calls r').map (statement.toList ++ ·)).toOption =
            (answers vars calls r').toOption.map (statement.toList ++ ·) := by
          cases answers vars calls r' <;> rfl
        rw [hahead, hmap, ih hr' hclean', Option.map_map, Option.map_map]
        rfl

/-! ## In step -/

/-- Where a space makes no difference to a reader. -/
def BetweenWords (r : Reader) : Prop := r.run.state = .text .bare ∧ r.draft.word = ""

/-- A piece that is queued now is set off as it would be if everything had been read, or where a
    space makes no difference. -/
def GapInStep (vars : Lookup) (r : Reader) : Prop :=
  let read := (drainOf vars r.pending r).2
  read.BetweenWords ∨ r.gap = read.separator

instance (vars : Lookup) (r : Reader) : Decidable (r.GapInStep vars) :=
  inferInstanceAs (Decidable (((drainOf vars r.pending r).2.run.state = .text .bare ∧
    (drainOf vars r.pending r).2.draft.word = "") ∨ r.gap = (drainOf vars r.pending r).2.separator))

/-- Every gap is decided in step, up to the first fault. -/
def InStep (vars : Lookup) : List Call → Reader → Prop
  | [], _ => True
  | .push text :: calls, r => (text = "" ∨ r.GapInStep vars) ∧ InStep vars calls (r.push text)
  | .next :: calls, r => (r.next vars).1.isOk = true → InStep vars calls (r.next vars).2

instance decidableInStep (vars : Lookup) : ∀ calls r, Decidable (InStep vars calls r)
  | [], _ => isTrue trivial
  | .push text :: calls, r =>
    have := decidableInStep vars calls (r.push text)
    inferInstanceAs (Decidable ((text = "" ∨ r.GapInStep vars) ∧ InStep vars calls (r.push text)))
  | .next :: calls, r =>
    have := decidableInStep vars calls (r.next vars).2
    inferInstanceAs (Decidable ((r.next vars).1.isOk = true → InStep vars calls (r.next vars).2))

/-- A reader that has read its input stands where another one gets, and what is queued for it is
    set off like what is queued for the other one. -/
structure ReadsAhead (vars : Lookup) (r q : Reader) (m : Mode) (d : Draft) : Prop where
  settled : r.Settled
  clean : r.draft.statement = none
  ahead : ∃ statements, r.ahead vars [] = some (statements, m, d)
  follows : q.Follows m d
  ended : q.endedLine = r.endedLine

namespace ReadsAhead
variable {vars : Lookup} {r q : Reader} {m : Mode} {d : Draft}

/-- Where the reader gets when it reads everything. -/
theorem drained (h : ReadsAhead vars r q m d) :
    ∃ d', d'.plain = d ∧
      (drainOf vars r.pending r).2 = { r.withState m d' with pending := [] } := by
  obtain ⟨statements, hahead⟩ := h.ahead
  rw [Reader.ahead, List.append_nil, outcome] at hahead
  rw [drainOf_eq_scan h.settled]
  cases hscan : scan vars r.unread r.run.state r.draft with
  | error e => simp [hscan] at hahead
  | ok result =>
    obtain ⟨statements', m', d'⟩ := result
    obtain ⟨-, rfl, hd⟩ : statements' = statements ∧ m' = m ∧ d'.plain = d := by
      simpa [hscan] using hahead
    rw [unread] at hscan
    rw [hscan]
    exact ⟨d', hd, rfl⟩

/-- What is set off in step is read like what is set off for the reader that has read. -/
theorem outcome_gap (h : ReadsAhead vars r q m d) (hgap : r.GapInStep vars) (cs : List Char) :
    outcome vars (r.gap ++ cs) m d = outcome vars (q.separator ++ cs) m d := by
  obtain ⟨d', hd, hdrained⟩ := h.drained
  rw [GapInStep, hdrained] at hgap
  rcases hgap with ⟨hmode, hword⟩ | hgap
  · obtain rfl : m = .text .bare := hmode
    have hword : d.word = "" := by
      rw [← hd]
      exact hword
    have hspace := outcome_space vars hword h.follows.statement cs
    rw [gap, separator]
    split <;> split <;> simp [hspace]
  · have hseparator : q.separator =
        ({ r.withState m d' with pending := [] } : Reader).separator := by
      simp only [separator, awaitsEscaped, withState, h.follows.pending, h.follows.mode, h.ended]
      rfl
    rw [hgap, hseparator]

theorem next (h : ReadsAhead vars r q m d) :
    (r.next vars).1.isOk = true ∧ ReadsAhead vars (r.next vars).2 q m d := by
  have hnext := nextRead h.settled h.clean vars
  obtain ⟨statements, hstatements⟩ := h.ahead
  generalize r.next vars = p at hnext ⊢
  cases hnext with
  | refused hahead =>
    rw [hahead] at hstatements
    cases hstatements
  | read hr' hended hclean hahead =>
    rw [hahead, Option.map_eq_some_iff] at hstatements
    obtain ⟨⟨more, m', d'⟩, hmore, hafter⟩ := hstatements
    obtain ⟨rfl, rfl⟩ : m' = m ∧ d' = d := by simpa [after] using congrArg Prod.snd hafter
    exact ⟨rfl, hr', hclean, ⟨more, hmore⟩, h.follows, h.ended.trans hended.symm⟩

/-- The reader queues a piece, and the other one reads it. -/
theorem push (h : ReadsAhead vars r q m d) {text : String} (hne : text ≠ "")
    (hgap : r.GapInStep vars) {statements : List Words} {m' : Mode} {d' : Draft} {q' : Reader}
    (hscan : scan vars (q.separator ++ text.toList) m d = .ok (statements, m', d'))
    (hfollows : q'.Follows m' d') (hended : q'.endedLine = Text.endsWith '\n' text) :
    ReadsAhead vars (r.push text) q' m' d'.plain := by
  have hpiece : outcome vars (r.gap ++ text.toList) m d = some (statements, m', d'.plain) := by
    rw [h.outcome_gap hgap, outcome, hscan]
  obtain ⟨before, hbefore⟩ := h.ahead
  have hafter : (r.push text).ahead vars [] = some (before ++ statements, m', d'.plain) := by
    rw [ahead_push vars r hne, List.append_nil, ahead_eq_bind, hbefore, Option.bind_some, hpiece]
    rfl
  exact ⟨h.settled.push text, (r.statement_push text).trans h.clean, ⟨_, hafter⟩,
    ⟨hfollows.settled, hfollows.pending, hfollows.mode, hfollows.draft, hfollows.statement⟩,
    hended.trans (r.endedLine_push hne).symm⟩

end ReadsAhead

theorem feed_empty {q : Reader} (hpending : q.pending = []) (vars : Lookup) :
    q.feed vars "" = (.ok ([], q.status), q) := by
  obtain ⟨run, pending, endedLine⟩ := q
  obtain rfl : pending = [] := hpending
  rfl

/-- The statements of the pieces come after those of the first one. -/
theorem toOption_feedEach_cons (vars : Lookup) (piece : String) (pieces : List String)
    (q : Reader) :
    (feedEach vars (piece :: pieces) q).1.toOption =
      match q.feed vars piece with
      | (.ok (statements, _), q') => (feedEach vars pieces q').1.toOption.map (statements ++ ·)
      | (.error _, _) => none := by
  rw [feedEach]
  rcases q.feed vars piece with ⟨fault | ⟨statements, status⟩, q'⟩
  · rfl
  · dsimp only
    rcases feedEach vars pieces q' with ⟨fault | more, q''⟩ <;> rfl

/-- What calls queue in step is read like the pieces, one after the other. -/
theorem outcome_coming {vars : Lookup} {calls : List Call} {r q : Reader} {m : Mode} {d : Draft}
    (h : ReadsAhead vars r q m d) (hstep : InStep vars calls r) :
    (outcome vars (coming vars calls r) m d).map (·.1) =
      (feedEach vars (Call.texts calls) q).1.toOption := by
  induction calls generalizing r q m d with
  | nil => rfl
  | cons call calls ih =>
    cases call with
    | push text =>
      obtain ⟨hgap, hstep⟩ := hstep
      rw [coming, Call.texts, toOption_feedEach_cons]
      by_cases hne : text = ""
      · subst hne
        have hrest := ih h hstep
        rw [if_pos rfl, List.nil_append, Reader.push, if_pos rfl, hrest,
          feed_empty h.follows.pending]
        simp only [List.nil_append, Option.map_id']
      · have hfed := pieceFed h.follows hne vars
        have hgap := hgap.resolve_left hne
        rw [if_neg hne, outcome_append, h.outcome_gap hgap, outcome]
        generalize q.feed vars text = p at hfed ⊢
        cases hfed with
        | refused hscan => rw [hscan]; rfl
        | @read statements m' d' q' hscan hfollows hended =>
          have hrest := ih (h.push hne hgap hscan hfollows hended) hstep
          simp only [hscan, Option.bind_some, Option.map_map, ← hrest]
          rfl
    | next => exact ih h.next.2 (hstep h.next.1)

/-- **When input is queued does not matter**, as long as every piece is set off as it would be if
    everything in front of it had been read: the statements are those of reading every piece before
    the next one is queued. -/
theorem answers_eq_feedEach (vars : Lookup) (calls : List Call) (h : InStep vars calls {})
    (statements : List Words) :
    answers vars calls {} = .ok statements ↔
      (feedEach vars (Call.texts calls) {}).1 = .ok statements := by
  have hfresh : ReadsAhead vars {} {} (.text .bare) {} :=
    ⟨rfl, rfl, ⟨[], rfl⟩, ⟨rfl, rfl, rfl, rfl, rfl⟩, rfl⟩
  have hsame : (answers vars calls {}).toOption =
      (feedEach vars (Call.texts calls) {}).1.toOption :=
    (answers_eq_ahead (r := {}) rfl rfl vars calls).trans (outcome_coming hfresh h)
  rw [← toOption_eq_some_iff, hsame, toOption_eq_some_iff]

/-- A quotation that is read before its end is queued, and lines that are queued ahead. -/
theorem quoted_answers :
    let calls : List Call := [.push "echo 'a", .next, .push "b'\n", .push "ls;pwd\n", .next]
    InStep noVariables calls {} ∧
      (answers noVariables calls {} = .ok [["echo", "a b"], ["ls"], ["pwd"]] ↔
        (feedEach noVariables (Call.texts calls) {}).1 =
          .ok [["echo", "a b"], ["ls"], ["pwd"]]) ∧
      answers noVariables calls {} = .ok [["echo", "a b"], ["ls"], ["pwd"]] := by
  intro calls
  have hstep : InStep noVariables calls {} := by decide +kernel
  exact ⟨hstep, answers_eq_feedEach noVariables calls hstep _, by rfl⟩

/-- **A piece that is queued while a word is pending** runs into that word, though the pieces would
    be set off if the first one had been read. -/
theorem answers_unread_word :
    answers noVariables [.push "a", .push "b\n"] {} = .ok [["ab"]] ∧
      (feedEach noVariables (Call.texts [.push "a", .push "b\n"]) {}).1 = .ok [["a", "b"]] := by
  constructor <;> rfl

/-! ## Whole lines -/

/-- What is queued on a new line is in step. -/
theorem gapInStep_of_endedLine {r : Reader} (hr : r.Settled) (hended : r.endedLine = true)
    (vars : Lookup) : r.GapInStep vars := by
  have hread : (drainOf vars r.pending r).2.endedLine = true := by
    rw [drainOf_eq_scan hr]
    split
    · exact hended
    · rfl
  refine .inr ?_
  rw [gap, separator, hended, hread]
  rfl

theorem inStep_of_texts_eq_nil (vars : Lookup) {calls : List Call} (h : Call.texts calls = [])
    (r : Reader) : InStep vars calls r := by
  induction calls generalizing r with
  | nil => trivial
  | cons call calls ih =>
    cases call with
    | push text => cases h
    | next => exact fun _ => ih h _

/-- **Pieces that end a line** can be queued at any time; only the last one may leave a line
    open. -/
theorem inStep_of_lines (vars : Lookup) {calls : List Call} {r : Reader} (hr : r.Settled)
    (hclean : r.draft.statement = none) (hended : r.endedLine = true)
    (h : ∀ text ∈ (Call.texts calls).dropLast, IsLines text) : InStep vars calls r := by
  induction calls generalizing r with
  | nil => trivial
  | cons call calls ih =>
    cases call with
    | push text =>
      refine ⟨.inr (gapInStep_of_endedLine hr hended vars), ?_⟩
      by_cases hlast : Call.texts calls = []
      · exact inStep_of_texts_eq_nil vars hlast _
      · rw [Call.texts, List.dropLast_cons_of_ne_nil hlast] at h
        obtain ⟨htext, h⟩ := List.forall_mem_cons.1 h
        exact ih (hr.push text) ((r.statement_push text).trans hclean)
          ((r.endedLine_push htext.ne_empty).trans htext) h
    | next =>
      intro hok
      have hnext := nextRead hr hclean vars
      generalize r.next vars = p at hnext hok ⊢
      cases hnext with
      | refused => cases hok
      | read hr' hended' hclean' => exact ih hr' hclean' (hended'.trans hended) h

end NestedShell.Reader
