/-
  Reading statements, without an automaton.

  The automaton that reads statements pushes at most one character back, when a variable ends, and
  reads it again as ordinary text.  Here reading a character is a function of the mode and the
  draft, and reading a text a recursion over its characters.

  * `read` reads a character, `readText` one of ordinary text; `advance_eq_read`: so does the
    automaton;
  * `Reader.Settled`: nothing is pushed back; `Reader.step_eq_read`: what a step of a settled reader
    does;
  * `scan` reads a text and collects the statements that end in it, with the place of the first
    fault; `scan_append`: it reads one text after the other;
  * `Reader.drainOf_eq_scan`: draining a settled reader scans the characters, `feed_eq_scan`: so does
    feeding it, and `statements?_eq_scan`: so does splitting a text.
-/
import Mathlib.Tactic.SplitIfs
import NestedShell.Statement.Split

namespace NestedShell.Statement

/-! ## One character -/

/-- Reads a character of ordinary text. -/
def readText : Place → Char → Draft → Mode × Draft
  | .bare, c, d =>
    if c = ' ' ∨ c = '\t' then (.text .bare, d.breakWord)
    else if c = ';' ∨ c = '\n' then (.text .bare, d.closeStatement)
    else if c = '\\' then (.escape .bare, d)
    else if c = '\'' then (.literal .bare, d)
    else if c = '"' then (.text .quoted, d)
    else if c = '$' then (.dollar .bare, d.openName)
    else (.text .bare, d.addChar c)
  | .quoted, c, d =>
    if c = '"' then (.text .bare, d.closeWord)
    else if c = '\\' then (.escape .quoted, d)
    else if c = '\'' then (.literal .quoted, d)
    else if c = '$' then (.dollar .quoted, d.openName)
    else (.text .quoted, d.addChar c)

/-- Reads a character. -/
def read (vars : Lookup) : Mode → Char → Draft → Except Cause (Mode × Draft)
  | .text p, c, d => .ok (readText p c d)
  | .escape p, c, d =>
    .ok (.text p, if c = '\n' then { d with joined := true } else d.addChar (resolveEscape c))
  | .literal .bare, c, d =>
    .ok (if c = '\'' then (.text .bare, d.closeWord) else (.literal .bare, d.addChar c))
  | .literal .quoted, c, d =>
    .ok (if c = '\'' then (.text .quoted, d) else (.literal .quoted, d.addChar c))
  | .dollar p, c, d =>
    .ok (if c = '{' then (.braced p, d)
      else if isNameChar c then (.name p, d.addNameChar c)
      else readText p c (d.substitute vars))
  | .name p, c, d =>
    .ok (if isNameChar c then (.name p, d.addNameChar c) else readText p c (d.substitute vars))
  | .braced p, c, d =>
    if c = '}' then
      if d.name = "" then .error .emptySubstitution else .ok (.text p, d.substitute vars)
    else if c = '\n' then .error (.unterminatedName d.name)
    else .ok (.braced p, d.addNameChar c)

theorem settle_nil (vars : Lookup) (budget : Nat) (m : Mode) (d : Draft) :
    machine.settle vars budget ⟨m, ⟨d, []⟩⟩ = (.ok (), ⟨m, ⟨d, []⟩⟩) := by
  cases budget <;> rfl

/-- A character of ordinary text is read in one step. -/
theorem step_text (vars : Lookup) (p : Place) (c : Char) (d : Draft) :
    machine.step vars c ⟨.text p, ⟨d, []⟩⟩ =
      (.ok (), ⟨(readText p c d).1, ⟨(readText p c d).2, []⟩⟩) := by
  rw [Automaton.step, machine_rule?]
  cases p with
  | bare =>
    simp only [exactRule, readText]
    split_ifs <;> rfl
  | quoted =>
    simp only [exactRule, readText]
    split_ifs <;> rfl

/-- The character that ends an unbraced variable is read again, as ordinary text. -/
theorem advance_endName (vars : Lookup) (m : Mode) (p : Place) (c : Char) (d : Draft)
    (h : machine.rule? m c = some ⟨some endName, some (.text p)⟩) :
    machine.advance vars 1 c ⟨m, ⟨d, []⟩⟩ =
      (.ok (), ⟨(readText p c (d.substitute vars)).1,
        ⟨(readText p c (d.substitute vars)).2, []⟩⟩) := by
  have hstep : machine.step vars c ⟨m, ⟨d, []⟩⟩ =
      (.ok (), ⟨.text p, ⟨d.substitute vars, [c]⟩⟩) := by
    rw [Automaton.step, h]
    rfl
  simp only [Automaton.advance, hstep, Automaton.settle, step_text]

/-- **The automaton reads a character**, and what it pushes back, as `read` does. -/
theorem advance_eq_read (vars : Lookup) (m : Mode) (c : Char) (d : Draft) :
    machine.advance vars 1 c ⟨m, ⟨d, []⟩⟩ =
      match read vars m c d with
      | .ok (m', d') => (.ok (), ⟨m', ⟨d', []⟩⟩)
      | .error cause => (.error (.refused ⟨cause, none⟩), ⟨m, ⟨d, []⟩⟩) := by
  have hrule := machine_rule? m c
  cases m with
  | text p => simp only [Automaton.advance, step_text, settle_nil, read]
  | escape p =>
    simp only [Automaton.advance, Automaton.step, hrule, exactRule, anyRule, read]
    split_ifs <;> rfl
  | literal p =>
    cases p <;>
    · simp only [Automaton.advance, Automaton.step, hrule, exactRule, anyRule, read]
      split_ifs <;> rfl
  | dollar p =>
    simp only [exactRule, anyRule] at hrule
    simp only [read]
    split_ifs at hrule ⊢ with hbrace hname
    · simp only [Automaton.advance, Automaton.step, hrule]
      rfl
    · simp only [Automaton.advance, Automaton.step, hrule]
      rfl
    · exact advance_endName vars _ p c d hrule
  | name p =>
    simp only [exactRule, anyRule] at hrule
    simp only [read]
    split_ifs at hrule ⊢ with hname
    · simp only [Automaton.advance, Automaton.step, hrule]
      rfl
    · exact advance_endName vars _ p c d hrule
  | braced p =>
    simp only [Automaton.advance, Automaton.step, hrule, exactRule, anyRule, read]
    split_ifs with hclose hempty hline
    · simp only [Option.getD_some, endBraced, hempty, if_true]
    · simp only [Option.getD_some, endBraced, hempty, if_false]
      rfl
    · rfl
    · rfl

/-! ## A text -/

/-- Reads a text and collects the statements that end in it; those without words do not count.  A
    fault comes with the number of characters in front of it. -/
def scan (vars : Lookup) : List Char → Mode → Draft →
    Except (Cause × Nat) (List Words × Mode × Draft)
  | [], m, d => .ok ([], m, d)
  | c :: cs, m, d =>
    match read vars m c d with
    | .error cause => .error (cause, 0)
    | .ok (m', d') =>
      match scan vars cs m' { d' with statement := none } with
      | .ok (statements, r) =>
        .ok ((d'.statement.filter (!·.isEmpty)).toList ++ statements, r)
      | .error (cause, n) => .error (cause, n + 1)

/-- A text is read on from where another one leaves off. -/
theorem scan_append {vars : Lookup} {xs : List Char} {m m' : Mode} {d d' : Draft}
    {statements : List Words} (h : scan vars xs m d = .ok (statements, m', d'))
    (ys : List Char) :
    scan vars (xs ++ ys) m d =
      match scan vars ys m' d' with
      | .ok (statements', r) => .ok (statements ++ statements', r)
      | .error (cause, n) => .error (cause, xs.length + n) := by
  induction xs generalizing m d statements with
  | nil =>
    cases h
    rw [List.nil_append]
    rcases scan vars ys m' d' with ⟨cause, n⟩ | ⟨statements', r⟩ <;> simp
  | cons c xs ih =>
    rw [scan] at h
    cases hread : read vars m c d with
    | error cause => simp [hread] at h
    | ok next =>
      simp only [hread] at h
      cases hscan : scan vars xs next.1 { next.2 with statement := none } with
      | error e => simp [hscan] at h
      | ok result =>
        obtain ⟨statements', m₁, d₁⟩ := result
        simp only [hscan, Except.ok.injEq, Prod.mk.injEq] at h
        obtain ⟨rfl, rfl, rfl⟩ := h
        rw [List.cons_append, scan, hread]
        simp only [ih hscan]
        cases scan vars ys m₁ d₁ with
        | ok result => simp
        | error e => simp [Nat.add_right_comm]

end NestedShell.Statement

namespace NestedShell.Reader

open NestedShell.Statement

/-! ## Readers -/

/-- Nothing is pushed back, as it is between two characters. -/
def Settled (r : Reader) : Prop := r.run.bench.pushed = []

/-- The reader in another mode, with another draft. -/
def withState (r : Reader) (m : Mode) (d : Draft) : Reader := { r with run := ⟨m, ⟨d, []⟩⟩ }

theorem settled_withState (r : Reader) (m : Mode) (d : Draft) : (r.withState m d).Settled := rfl

theorem status_withState (r : Reader) (m : Mode) (d : Draft) :
    (r.withState m d).status =
      if m = .text .bare ∧ d.joined = false then .complete else .continuation := by
  have hidle : machine.isIdle (r.withState m d).run = decide (m = .text .bare) := rfl
  have hjoined : (r.withState m d).draft.joined = d.joined := rfl
  rw [status, hidle, hjoined]
  by_cases hm : m = .text .bare <;> simp [hm]

/-- **A step of a settled reader.** -/
theorem step_eq_read {r : Reader} (h : r.Settled) (vars : Lookup) (pos : Nat) (c : Char) :
    r.step vars pos c =
      match read vars r.run.state c r.draft with
      | .ok (m, d) =>
        (.ok (d.statement.filter (!·.isEmpty)), r.withState m { d with statement := none })
      | .error cause => (.error ⟨cause, some pos⟩, {}) := by
  obtain ⟨⟨m, d, pushed⟩, pending, endedLine⟩ := r
  cases h
  simp only [step, advance_eq_read, draft]
  cases read vars m c d <;> rfl

theorem Settled.push {r : Reader} (h : r.Settled) (text : String) : (r.push text).Settled := by
  rw [Reader.push]
  split <;> exact h

theorem Settled.step {r : Reader} (h : r.Settled) (vars : Lookup) (pos : Nat) (c : Char) :
    (r.step vars pos c).2.Settled := by
  rw [step_eq_read h]
  split <;> rfl

/-- **Draining a settled reader** scans the characters; a fault belongs to the place of the one
    that it comes from. -/
theorem drainOf_eq_scan {r : Reader} (h : r.Settled) (vars : Lookup) (ps : List (Nat × Char)) :
    drainOf vars ps r =
      match scan vars (ps.map (·.2)) r.run.state r.draft with
      | .ok (statements, m, d) => (.ok statements, { r.withState m d with pending := [] })
      | .error (cause, n) => (.error ⟨cause, ps[n]?.map (·.1)⟩, {}) := by
  induction ps generalizing r with
  | nil =>
    obtain ⟨⟨m, d, pushed⟩, pending, endedLine⟩ := r
    cases h
    rfl
  | cons p ps ih =>
    obtain ⟨pos, c⟩ := p
    rw [drainOf, step_eq_read h, List.map_cons, scan]
    cases hread : read vars r.run.state c r.draft with
    | error cause => rfl
    | ok next =>
      obtain ⟨m, d⟩ := next
      have ih := ih (r.settled_withState m { d with statement := none })
      simp only [draft, withState] at ih ⊢
      cases hstatement : d.statement.filter (!·.isEmpty) <;>
      · simp only [ih]
        cases scan vars (ps.map (·.2)) m { d with statement := none } <;> simp

/-- The characters of a text, without their offsets. -/
theorem map_snd_offsets (n : Nat) (cs : List Char) : (Text.offsets n cs).map (·.2) = cs := by
  induction cs generalizing n with
  | nil => rfl
  | cons c cs ih => simp [Text.offsets, ih]

/-- What is queued for a piece of input when all of the input before it has been read: the piece,
    set off by a space where it needs one. -/
def queued (r : Reader) (text : String) : List (Nat × Char) :=
  (if !r.endedLine && !r.isClear && !r.awaitsEscaped then [(0, ' ')] else []) ++
    Text.offsets 0 text.toList

/-- **A piece of input is scanned**, from where the reader stands. -/
theorem feed_eq_scan {r : Reader} (hsettled : r.Settled) (hpending : r.pending = [])
    {text : String} (hne : text ≠ "") (vars : Lookup) :
    r.feed vars text =
      match scan vars ((r.queued text).map (·.2)) r.run.state { r.draft with joined := false } with
      | .ok (statements, m, d) =>
        let r' := ({ endedLine := Text.endsWith '\n' text } : Reader).withState m d
        (.ok (statements, r'.status), r')
      | .error (cause, n) => (.error ⟨cause, (r.queued text)[n]?.map (·.1)⟩, {}) := by
  have hpush : r.push text =
      { run := { r.run with bench.scratch.joined := false }
        pending := r.queued text
        endedLine := Text.endsWith '\n' text } := by
    rw [push, if_neg hne]
    simp only [hpending, queued, List.nil_append]
  have hpushed : (r.push text).Settled := by
    rw [hpush]
    exact hsettled
  have hdrain := drainOf_eq_scan hpushed vars (r.queued text)
  rw [hpush] at hdrain
  simp only [feed, hpush, hdrain]
  simp only [draft, withState]
  rcases scan vars _ r.run.state _ with ⟨cause, n⟩ | ⟨statements, m, d⟩ <;> rfl

/-- **A fresh reader scans the text** that it is fed with. -/
theorem feed_fresh {text : String} (hne : text ≠ "") (vars : Lookup) :
    feed vars text {} =
      match scan vars text.toList (.text .bare) {} with
      | .ok (statements, m, d) =>
        let r := ({ endedLine := Text.endsWith '\n' text } : Reader).withState m d
        (.ok (statements, r.status), r)
      | .error (cause, n) =>
        (.error ⟨cause, (Text.offsets 0 text.toList)[n]?.map (·.1)⟩, {}) := by
  have hqueued : ({} : Reader).queued text = Text.offsets 0 text.toList := rfl
  rw [feed_eq_scan (r := {}) rfl rfl hne, hqueued, map_snd_offsets]
  rfl

end NestedShell.Reader

namespace NestedShell.Statement

/-- **The statements of a text**, or its fault, are told by one scan of the line that it makes. -/
theorem statements?_eq_scan (text : String) (vars : Lookup) :
    statements? text vars =
      match scan vars (text.toList ++ ['\n']) (.text .bare) {} with
      | .ok (statements, m, d) =>
        if m = .text .bare ∧ d.joined = false then .ok statements
        else .error ⟨.unfinished (({} : Reader).withState m {}).openConstruct,
          some text.utf8ByteSize⟩
      | .error (cause, n) =>
        .error ⟨cause, (Text.offsets 0 (text.toList ++ ['\n']))[n]?.map (·.1)⟩ := by
  have hne : text.push '\n' ≠ "" := by
    intro h
    simpa using congrArg String.toList h
  rw [statements?, Reader.feed_fresh hne, String.toList_push]
  rcases scan vars (text.toList ++ ['\n']) (.text .bare) {} with ⟨cause, n⟩ | ⟨statements, m, d⟩
  · rfl
  · simp only [Reader.status_withState]
    split_ifs <;> rfl

/-- The statements of a text that leaves nothing open. -/
theorem statements?_eq_ok {vars : Lookup} {text : String} {statements : List Words} {d : Draft}
    (h : scan vars (text.toList ++ ['\n']) (.text .bare) {} = .ok (statements, .text .bare, d))
    (hd : d.joined = false) : statements? text vars = .ok statements := by
  rw [statements?_eq_scan, h]
  exact if_pos ⟨rfl, hd⟩

end NestedShell.Statement
