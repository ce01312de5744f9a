/-
  What a reader holds back.

  Between two calls a reader holds no statement that has ended, and no name but the one that is
  being read.  So when it has read a line and answers that all is complete, it is a new reader.
  When it does not, a quotation is open or a backslash escapes the newline.  A statement is returned
  where it ends, and what is left then is the input behind it.

  * `Reader.Tidy`: what is true of a reader between two calls; `Reader.Ready`: what it tells of
    itself when nothing of a statement is left; `Ready.run_eq`: a reader that is both stands where a
    new one does;
  * `Reader.Returned`: a statement with words, and a reader that stands where a new one does;
    `Tidy.returned`: so is every statement that a tidy reader returns;
  * `Reader.Pulls`: calls of `next` up to the one that returns nothing; `pulls_drainOf`: reading
    everything makes such calls;
  * `HeldBack` and `Traced.heldBack_after`: what a line leaves behind, however the reader was used.
-/
import NestedShell.Proofs.Statement.Closed
import NestedShell.Proofs.Statement.Faults

namespace NestedShell.Statement

/-! ## Statements that end -/

theorem statement_breakWord (d : Draft) : d.breakWord.statement = d.statement := by
  rw [Draft.breakWord]
  split <;> rfl

theorem statement_substitute (vars : Lookup) (d : Draft) :
    (d.substitute vars).statement = d.statement := by
  rw [Draft.substitute]
  split <;> rfl

/-- Nothing of a statement is left in a draft. -/
structure Draft.Ended (d : Draft) : Prop where
  word : d.word = ""
  args : d.args = []
  joined : d.joined = false

theorem ended_closeStatement (d : Draft) : d.closeStatement.Ended := ⟨word_breakWord d, rfl, rfl⟩

/-- In ordinary text, a statement ends where nothing of it is left. -/
theorem ended_readText {p : Place} {c : Char} {d d' : Draft} {m : Mode} {words : Words}
    (hd : d.statement = none) (h : readText p c d = (m, d')) (hwords : d'.statement = some words) :
    m = .text .bare ∧ d'.Ended := by
  -- all the other branches leave the draft without a statement
  cases p with
  | bare =>
    rw [readText] at h
    split_ifs at h <;> cases h
    · rw [statement_breakWord, hd] at hwords
      cases hwords
    · exact ⟨rfl, ended_closeStatement d⟩
    all_goals exact absurd (hd.symm.trans hwords) (by simp)
  | quoted =>
    rw [readText] at h
    split_ifs at h <;> cases h
    all_goals exact absurd (hd.symm.trans hwords) (by simp)

/-- **A statement ends** where nothing of it is left. -/
theorem ended_read {vars : Lookup} {m m' : Mode} {c : Char} {d d' : Draft} {words : Words}
    (hd : d.statement = none) (h : read vars m c d = .ok (m', d'))
    (hwords : d'.statement = some words) : m' = .text .bare ∧ d'.Ended := by
  cases m with
  | text p => exact ended_readText hd (Except.ok.inj h) hwords
  | escape p =>
    cases h
    split at hwords <;> exact absurd (hd.symm.trans hwords) (by simp)
  | literal p =>
    cases p <;>
    · simp only [read] at h
      split at h <;> cases h <;> exact absurd (hd.symm.trans hwords) (by simp)
  | dollar p | name p =>
    have hsub := (statement_substitute vars d).trans hd
    simp only [read, Except.ok.injEq] at h
    split_ifs at h
    all_goals first
      | exact ended_readText hsub h hwords
      | cases h; exact absurd (hd.symm.trans hwords) (by simp)
  | braced p =>
    have hsub := (statement_substitute vars d).trans hd
    simp only [read] at h
    split_ifs at h <;> cases h
    · exact absurd (hsub.symm.trans hwords) (by simp)
    · exact absurd (hd.symm.trans hwords) (by simp)

/-! ## Newlines that leave something open -/

/-- A single, a double, or a nested quotation is open, and nothing else inside it. -/
def Mode.IsQuotation (m : Mode) : Prop :=
  m = .literal .bare ∨ m = .text .quoted ∨ m = .literal .quoted

/-- A text ends with a newline that a backslash escapes. -/
def EscapesNewline (cs : List Char) : Prop :=
  ∃ front p, cs = front ++ ['\\', '\n'] ∧ modeOf (front ++ ['\\']) = .escape p

/-- What waits for its character is a backslash. -/
theorem eq_backslash_of_next {m : Mode} {c : Char} {p : Place} (h : m.next c = .escape p) :
    c = '\\' := by
  have hofText (q : Place) (h : Mode.ofText q c = .escape p) : c = '\\' := by
    cases q <;>
    · simp only [Mode.ofText] at h
      split_ifs at h
      assumption
  cases m with
  | text q => exact hofText q h
  | escape q => cases h
  | literal q | braced q =>
    simp only [Mode.next] at h
    split_ifs at h
  | dollar q | name q =>
    simp only [Mode.next] at h
    split_ifs at h
    exact hofText q h

theorem exists_backslash {cs : List Char} {p : Place} (h : modeOf cs = .escape p) :
    ∃ front, cs = front ++ ['\\'] := by
  obtain rfl | ⟨front, c, rfl⟩ := cs.eq_nil_or_concat
  · cases h
  · rw [List.concat_eq_append, modeOf_concat] at h
    exact ⟨front, by rw [eq_backslash_of_next h, List.concat_eq_append]⟩

/-- Something is left open after a newline if a quotation is, or if the newline is escaped. -/
theorem endsOpen_iff {vars : Lookup} {cs : List Char} {d d' : Draft} {m : Mode}
    (h : read vars (modeOf cs) '\n' d = .ok (m, d')) :
    EndsOpen (cs ++ ['\n']) ↔ m.IsQuotation ∨ EscapesNewline (cs ++ ['\n']) := by
  have hquotes : ((modeOf cs).next '\n').InQuotes ↔ m.IsQuotation := by
    have hname : isNameChar '\n' = false := by decide
    obtain rfl := mode_read h
    generalize modeOf cs = m at h
    rcases m with p | p | p | p | p | p <;> cases p <;>
      simp [read, Mode.next, Mode.ofText, Mode.InQuotes, Mode.IsQuotation, hname] at h ⊢
  rw [endsOpen_newline, hquotes]
  refine or_congr_right ⟨?_, ?_⟩
  · rintro ⟨p, hp⟩
    obtain ⟨front, rfl⟩ := exists_backslash hp
    exact ⟨front, p, by simp, hp⟩
  · rintro ⟨front, p, hcs, hp⟩
    have hsplit : cs ++ ['\n'] = (front ++ ['\\']) ++ ['\n'] := by simpa using hcs
    rw [List.append_cancel_right hsplit]
    exact ⟨p, hp⟩

/-- **A text that is read** leads where its characters lead. -/
theorem mode_scan {vars : Lookup} {cs : List Char} {m m' : Mode} {d d' : Draft} {ss : List Words}
    (h : scan vars cs m d = .ok (ss, m', d')) : m' = cs.foldl Mode.next m := by
  induction cs generalizing m d ss with
  | nil =>
    cases h
    rfl
  | cons c cs ih =>
    obtain ⟨m₁, d₁, more, hread, hrest, -⟩ := scan_cons_eq_ok h
    rw [List.foldl_cons, ← mode_read hread]
    exact ih hrest

end NestedShell.Statement

namespace NestedShell.Reader

open NestedShell.Statement

/-! ## Between two calls -/

theorem status_eq_complete_iff (r : Reader) :
    r.status = .complete ↔ r.run.state = .text .bare ∧ r.draft.joined = false := by
  have hidle : machine.isIdle r.run = decide (r.run.state = .text .bare) := rfl
  rw [status, hidle]
  split <;> simp_all

theorem status_eq_continuation_iff (r : Reader) :
    r.status = .continuation ↔ ¬(r.run.state = .text .bare ∧ r.draft.joined = false) := by
  rw [← status_eq_complete_iff]
  cases r.status <;> simp

/-- What a reader tells when nothing of a statement is left. -/
structure Ready (r : Reader) : Prop where
  clear : r.isClear = true
  complete : r.status = .complete
  pending : r.pending = []

/-- What is true of a reader between two calls. -/
structure Tidy (r : Reader) : Prop where
  settled : r.Settled
  clean : r.draft.statement = none
  name : r.run.state.Unnamed → r.draft.name = ""

/-- **A tidy reader that is ready** is in the state of a new one. -/
theorem Ready.run_eq {r : Reader} (h : r.Ready) (ht : r.Tidy) : r.run = machine.start {} := by
  obtain ⟨⟨m, ⟨word, name, args, statement, joined⟩, pushed⟩, pending, endedLine⟩ := r
  obtain ⟨hclear, hcomplete, -⟩ := h
  obtain ⟨hpushed, hclean, hname⟩ := ht
  simp only [isClear, draft, Bool.and_eq_true] at hclear
  obtain ⟨⟨hidle, hword⟩, hargs⟩ := hclear
  obtain rfl : m = .text .bare := of_decide_eq_true hidle
  obtain rfl : word = "" := of_decide_eq_true hword
  obtain rfl : args = [] := of_decide_eq_true hargs
  obtain rfl : name = "" := hname trivial
  obtain rfl : statement = none := hclean
  obtain rfl : pushed = [] := hpushed
  cases joined with
  | false => rfl
  | true => simp [status, draft] at hcomplete

theorem ready_fresh : ({} : Reader).Ready := ⟨rfl, rfl, rfl⟩

theorem tidy_fresh : ({} : Reader).Tidy := ⟨rfl, rfl, fun _ => rfl⟩

namespace Tidy
variable {r : Reader}

theorem withPending (h : r.Tidy) (ps : List (Nat × Char)) :
    ({ r with pending := ps } : Reader).Tidy := ⟨h.settled, h.clean, h.name⟩

theorem push (h : r.Tidy) (text : String) : (r.push text).Tidy := by
  rw [Reader.push]
  split
  · exact h
  · exact ⟨h.settled, h.clean, h.name⟩

theorem step (h : r.Tidy) (vars : Lookup) (pos : Nat) (c : Char) :
    (r.step vars pos c).2.Tidy := by
  rw [step_eq_read h.settled]
  cases hread : read vars r.run.state c r.draft with
  | error cause => exact tidy_fresh
  | ok result =>
    obtain ⟨m, d⟩ := result
    exact ⟨rfl, rfl, fun hm => (name_read hread h.name hm :)⟩

theorem nextOf (h : r.Tidy) (vars : Lookup) (ps : List (Nat × Char)) :
    (nextOf vars ps r).2.Tidy := by
  induction ps generalizing r with
  | nil => exact h.withPending []
  | cons p ps ih =>
    obtain ⟨pos, c⟩ := p
    have hstep := h.step vars pos c
    rw [Reader.nextOf]
    generalize r.step vars pos c = result at hstep ⊢
    rcases result with ⟨fault | _ | words, r'⟩
    · exact hstep
    · exact ih hstep
    · exact hstep.withPending ps

theorem drainOf (h : r.Tidy) (vars : Lookup) (ps : List (Nat × Char)) :
    (drainOf vars ps r).2.Tidy := by
  induction ps generalizing r with
  | nil => exact h.withPending []
  | cons p ps ih =>
    obtain ⟨pos, c⟩ := p
    have hstep := h.step vars pos c
    rw [Reader.drainOf]
    generalize r.step vars pos c = result at hstep ⊢
    rcases result with ⟨fault | _ | words, r'⟩
    · exact hstep
    · exact ih hstep
    · have hrest := ih hstep
      dsimp only at hrest ⊢
      generalize Reader.drainOf vars ps r' = result at hrest ⊢
      rcases result with ⟨fault | more, r''⟩ <;> exact hrest

end Tidy

/-! ## Statements that are returned -/

/-- A statement that is returned has words, and the reader stands where a new one does: only the
    input behind the statement is left. -/
structure Returned (words : Words) (r : Reader) : Prop where
  words : words ≠ []
  ground : r.run = machine.start {}

/-- A character that ends a statement leaves nothing else of it. -/
theorem Tidy.returned_step {r r' : Reader} (h : r.Tidy) {vars : Lookup} {pos : Nat} {c : Char}
    {words : Words} (hstep : r.step vars pos c = (.ok (some words), r')) : Returned words r' := by
  rw [step_eq_read h.settled] at hstep
  cases hread : read vars r.run.state c r.draft with
  | error cause => simp [hread] at hstep
  | ok result =>
    obtain ⟨m, d⟩ := result
    simp only [hread, Prod.mk.injEq, Except.ok.injEq, Option.filter_eq_some_iff] at hstep
    obtain ⟨⟨hwords, hne⟩, rfl⟩ := hstep
    obtain ⟨rfl, hword, hargs, hjoined⟩ := ended_read h.clean hread hwords
    have hname : d.name = "" := name_read hread h.name trivial
    refine ⟨by simpa using hne, ?_⟩
    obtain ⟨word, name, args, statement, joined⟩ := d
    simp only at hname hword hargs hjoined
    subst hname hword hargs hjoined
    rfl

/-- **A statement is returned** where it ends. -/
theorem Tidy.returned {r r' : Reader} (h : r.Tidy) {vars : Lookup} {ps : List (Nat × Char)}
    {words : Words} (hnext : Reader.nextOf vars ps r = (.ok (some words), r')) :
    Returned words r' := by
  induction ps generalizing r with
  | nil => cases hnext
  | cons p ps ih =>
    obtain ⟨pos, c⟩ := p
    have htidy := h.step vars pos c
    rw [Reader.nextOf] at hnext
    rcases hstep : r.step vars pos c with ⟨fault | _ | words', r₁⟩
    · simp [hstep] at hnext
    · rw [hstep] at hnext htidy
      exact ih htidy hnext
    · rw [hstep] at hnext
      cases hnext
      exact ⟨(h.returned_step hstep).words, (h.returned_step hstep).ground⟩

/-- Calls of `next` up to the one that returns nothing, and the statements that they return. -/
inductive Pulls (vars : Lookup) : Reader → List Words → Reader → Prop where
  | done {r r' : Reader} (none : r.next vars = (.ok none, r')) : Pulls vars r [] r'
  | pull {r r' r'' : Reader} {words : Words} {more : List Words}
      (some : r.next vars = (.ok (some words), r')) (returned : Returned words r')
      (rest : Pulls vars r' more r'') : Pulls vars r (words :: more) r''

/-- Reading everything begins with reading up to the end of the first statement. -/
theorem drainOf_eq_ok {vars : Lookup} {ps : List (Nat × Char)} {r r' : Reader} {ss : List Words}
    (h : drainOf vars ps r = (.ok ss, r')) :
    (nextOf vars ps r = (.ok none, r') ∧ ss = []) ∨
      ∃ words r₁ more, nextOf vars ps r = (.ok (some words), r₁) ∧
        drainOf vars r₁.pending r₁ = (.ok more, r') ∧ ss = words :: more ∧
        r₁.pending.length < ps.length := by
  induction ps generalizing r ss with
  | nil =>
    cases h
    exact .inl ⟨rfl, rfl⟩
  | cons p ps ih =>
    obtain ⟨pos, c⟩ := p
    rw [drainOf] at h
    rw [nextOf]
    rcases hstep : r.step vars pos c with ⟨fault | _ | words, r₁⟩
    · simp [hstep] at h
    · simp only [hstep] at h
      obtain hnone | ⟨words, r₂, more, hnext, hrest, hss, hlt⟩ := ih h
      · exact .inl hnone
      · exact .inr ⟨words, r₂, more, hnext, hrest, hss, by simp only [List.length_cons]; omega⟩
    · simp only [hstep] at h
      rcases hrest : drainOf vars ps r₁ with ⟨fault | more, r₂⟩
      · simp [hrest] at h
      · simp only [hrest, Prod.mk.injEq, Except.ok.injEq] at h
        obtain ⟨rfl, rfl⟩ := h
        refine .inr ⟨words, { r₁ with pending := ps }, more, rfl, ?_, rfl, by simp⟩
        rw [drainOf_pending, hrest]

/-- **Reading everything** is calling `next` until it returns nothing. -/
theorem pulls_drainOf {vars : Lookup} {r r' : Reader} {ss : List Words} (ht : r.Tidy)
    (h : drainOf vars r.pending r = (.ok ss, r')) : Pulls vars r ss r' := by
  induction hn : r.pending.length using Nat.strongRecOn generalizing r ss with
  | ind n ih =>
    subst hn
    obtain ⟨hnone, rfl⟩ | ⟨words, r₁, more, hnext, hrest, rfl, hlt⟩ := drainOf_eq_ok h
    · exact .done hnone
    · have htidy := ht.nextOf vars r.pending
      rw [hnext] at htidy
      exact .pull hnext (ht.returned hnext) (ih _ hlt htidy hrest rfl)

/-- Feeding reads everything, and tells the status of the reader. -/
theorem drainOf_of_feed {vars : Lookup} {text : String} {r r' : Reader} {ss : List Words}
    {status : Status} (h : r.feed vars text = (.ok (ss, status), r')) :
    drainOf vars (r.push text).pending (r.push text) = (.ok ss, r') ∧ r'.status = status := by
  simp only [feed] at h
  rcases hdrain : drainOf vars (r.push text).pending (r.push text) with ⟨fault | ss', r₁⟩
  · simp [hdrain] at h
  · simp only [hdrain, Prod.mk.injEq, Except.ok.injEq] at h
    obtain ⟨⟨rfl, hstatus⟩, rfl⟩ := h
    exact ⟨rfl, hstatus⟩

/-- What a settled reader has read is what a scan of its input comes to. -/
theorem scan_of_drainOf {vars : Lookup} {r r' : Reader} {ss : List Words} (hr : r.Settled)
    (h : drainOf vars r.pending r = (.ok ss, r')) :
    ∃ m d, scan vars r.unread r.run.state r.draft = .ok (ss, m, d) ∧
      r' = { r.withState m d with pending := [] } := by
  rw [drainOf_eq_scan hr] at h
  rw [unread]
  generalize scan vars (r.pending.map (·.2)) r.run.state r.draft = result at h ⊢
  rcases result with e | ⟨ss', m, d⟩ <;> cases h
  exact ⟨m, d, rfl, rfl⟩

/-- The input that is left after a line was queued ends with its newline. -/
theorem exists_unread_push (r : Reader) {line : String} (hline : IsLines line) :
    ∃ before, (r.push line).unread = before ++ ['\n'] := by
  obtain ⟨cs, hcs⟩ := List.getLast?_eq_some_iff.1 hline.getLast?_eq
  exact ⟨r.unread ++ r.gap ++ cs, by rw [unread_push r hline.ne_empty, hcs]; simp⟩

/-- **Input that ends with a newline** leaves a new reader if all is complete, and otherwise what
    its end leaves open. -/
theorem drainOf_line {vars : Lookup} {r r' : Reader} {text before : List Char} {ss : List Words}
    (ht : r.Tidy) (hstands : r.Stands text) (hunread : r.unread = before ++ ['\n'])
    (hended : r.endedLine = true) (h : drainOf vars r.pending r = (.ok ss, r')) :
    (r'.status = .complete → r' = {}) ∧
    (r'.status = .continuation ↔
      r'.run.state.IsQuotation ∨ EscapesNewline (text ++ before ++ ['\n'])) := by
  obtain ⟨m, d, hscan, rfl⟩ := scan_of_drainOf ht.settled h
  rw [hunread] at hscan
  constructor
  · intro hcomplete
    obtain ⟨rfl, hjoined⟩ := (status_eq_complete_iff _).1 hcomplete
    rw [draft_scan_line ht.name hscan hjoined, withState, hended]
    rfl
  · -- the newline is read where the characters in front of it lead
    obtain ⟨ss₁, m₁, d₁, d₂, hbefore, hread, rfl, -⟩ := scan_concat_eq_ok.1 hscan
    obtain rfl : m₁ = modeOf (text ++ before) := by
      rw [mode_scan hbefore, hstands.mode, modeOf, modeOf, List.foldl_append]
    rw [status_eq_continuation_iff]
    exact (endsOpen_read hread).symm.trans (endsOpen_iff hread)

end NestedShell.Reader

namespace NestedShell.Statement.Traced

open NestedShell.Reader (Returned Pulls)

/-! ## After a line -/

theorem tidy_use {t : Traced} (h : t.reader.Tidy) (u : Use) : (t.use u).reader.Tidy := by
  have hgoOn {α : Type} {t : Traced} {result : Except Fault α × Reader} (h : result.2.Tidy) :
      (t.goOn result).reader.Tidy := by
    rcases result with ⟨fault | a, r⟩ <;> exact h
  cases u with
  | push text => exact h.push text
  | next vars => exact hgoOn (h.nextOf vars t.reader.pending)
  | feed vars text =>
    refine hgoOn ?_
    have hdrain := (h.push text).drainOf vars (t.reader.push text).pending
    simp only [Reader.feed]
    generalize Reader.drainOf vars _ _ = result at hdrain ⊢
    rcases result with ⟨fault | ss, r⟩ <;> exact hdrain
  | abandon => exact Reader.tidy_fresh

/-- **Every use** leaves the reader tidy. -/
theorem tidy_after (uses : List Use) : (after uses).reader.Tidy := by
  have hfrom (t : Traced) (h : t.reader.Tidy) : (uses.foldl use t).reader.Tidy := by
    induction uses generalizing t with
    | nil => exact h
    | cons u uses ih => exact ih _ (tidy_use h u)
  exact hfrom {} Reader.tidy_fresh

/-- The characters that have been queued since the reader was a new one. -/
def chars (t : Traced) : List Char := t.pieces.flatMap Piece.chars

/-- What a line leaves behind when it is fed to a reader and not refused. -/
structure HeldBack (t : Traced) (vars : Lookup) (line : String) (ss : List Words)
    (status : Reader.Status) (r : Reader) : Prop where
  /-- the statements are those that calls of `next` return, one by one -/
  pulls : Pulls vars (t.reader.push line) ss r
  /-- when all is complete nothing is held back -/
  complete : status = .complete ↔ r = {}
  /-- otherwise a quotation is open, or the newline is escaped -/
  continuation : status = .continuation ↔
    r.run.state.IsQuotation ∨ EscapesNewline (t.push line).chars

/-- The characters that have been queued are those that have been read and those that are left. -/
theorem Within.chars_eq {t : Traced} {done : List (Nat × Char)} (h : t.Within done) :
    t.chars = done.map (·.2) ++ t.reader.unread := by
  have hinput := congrArg (List.map (·.2)) h.input
  rw [List.map_append, List.map_flatMap] at hinput
  rw [chars, Reader.unread, ← hinput]
  congr 1
  funext piece
  exact piece.map_snd_queued.symm

/-- **A line that is fed** leaves nothing behind but what its end leaves open. -/
theorem heldBack_feed {t : Traced} {done : List (Nat × Char)} (h : t.Within done)
    (ht : t.reader.Tidy) {vars : Lookup} {line : String} (hline : Reader.IsLines line)
    {ss : List Words} {status : Reader.Status} {r : Reader}
    (hfeed : t.reader.feed vars line = (.ok (ss, status), r)) :
    t.HeldBack vars line ss status r := by
  obtain ⟨hdrain, rfl⟩ := Reader.drainOf_of_feed hfeed
  have hpush := ht.push line
  have hwithin := h.push line
  have hended := (t.reader.endedLine_push hline.ne_empty).trans hline
  obtain ⟨before, hunread⟩ := t.reader.exists_unread_push hline
  have hchars : (t.push line).chars = done.map (·.2) ++ before ++ ['\n'] := by
    rw [hwithin.chars_eq, List.append_assoc]
    exact congrArg _ hunread
  obtain ⟨hcomplete, hcontinuation⟩ :=
    Reader.drainOf_line hpush hwithin.stands hunread hended hdrain
  refine ⟨Reader.pulls_drainOf hpush hdrain, ⟨hcomplete, ?_⟩, hchars ▸ hcontinuation⟩
  rintro rfl
  rfl

/-- **What a reader holds back**, however it has been used.  A statement that it returns has words,
    and is returned where it ends; and after a line that is not refused, nothing is left if all is
    complete, and otherwise a quotation is open or the newline is escaped. -/
theorem heldBack_after (uses : List Use) (vars : Lookup) :
    (∀ words r, (after uses).reader.next vars = (.ok (some words), r) → Returned words r) ∧
    ∀ line ss status r, Reader.IsLines line →
      (after uses).reader.feed vars line = (.ok (ss, status), r) →
      (after uses).HeldBack vars line ss status r := by
  have htidy := tidy_after uses
  obtain ⟨done, hwithin⟩ := within_after uses
  exact ⟨fun words r hnext => htidy.returned hnext,
    fun line ss status r hline hfeed => heldBack_feed hwithin htidy hline hfeed⟩

/-- A refused line, an unread text that ends inside the name of a variable, and then newlines: the
    first one ends the name, the second one is escaped. -/
theorem heldBack_newlines :
    let vars : Lookup := fun name => if name = "X" then some "1; 2" else none
    let t := after [.feed vars "'a' $\x7b\x7d", .push "b;;c $X"]
    let t' := after [.push "b 'c", .next vars, .feed vars "'d\\"]
    (t.HeldBack vars "\n" [["b"], ["c", "1; 2"]] .complete {} ∧
      (∃ r, t.reader.next vars = (.ok (some ["b"]), r) ∧ Returned ["b"] r)) ∧
    ∃ r, t'.HeldBack vars "\n" [] .continuation r := by
  intro vars t t'
  have hline : Reader.IsLines "\n" := rfl
  have h := heldBack_after [.feed vars "'a' $\x7b\x7d", .push "b;;c $X"] vars
  have h' := heldBack_after [.push "b 'c", .next vars, .feed vars "'d\\"] vars
  exact ⟨⟨h.2 _ _ _ _ hline (by rfl), _, by rfl, h.1 _ _ (by rfl)⟩, _,
    h'.2 _ _ _ _ hline (by rfl)⟩

end NestedShell.Statement.Traced
