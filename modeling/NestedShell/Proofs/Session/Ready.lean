/-
  Sessions that are ready for a fresh statement.

  A reader is ready when it has read all of its input and nothing of a statement is left: then it
  is in the state of a new one, and a line is read as if it were the first.

  * `Session.Reached.tidy`: between two acts the reader is tidy;
  * `Session.readPiece_ready`: a line in a ready session is read from the start;
  * `Shell.quiet` forgets the log and the interrupt flag; `Session.readChars_quiet`: statements that
    do nothing change nothing else.
-/
import NestedShell.Proofs.Session.Acts
import NestedShell.Proofs.Statement.Complete

namespace NestedShell

/-! ## What is noted beside the output -/

namespace Shell

variable {σ ω : Type}

/-- The shell without the log and the interrupt flag. -/
def quiet (s : Shell σ ω) : Shell σ ω :=
  { s with console := { s.console with log := [] }, interrupted := false }

end Shell

namespace Session

variable {σ ω : Type} [CommandSet σ ω]

/-! ## Ready sessions -/

/-- **Between two acts the reader is tidy.** -/
theorem Reached.tidy {s : Session σ ω} (h : s.Reached) : s.reader.Tidy :=
  h.reader Reader.tidy_fresh
    (fun hr text =>
      have hpush := hr.push text
      ⟨hpush.settled, hpush.clean, hpush.name⟩)
    fun hr => hr.step

omit [CommandSet σ ω] in
theorem isFinished_of_top {s : Session σ ω} {level : Level σ}
    (htop : s.shell.stack.top? = some level) : s.isFinished = false := by
  obtain ⟨below, hlevels⟩ := List.head?_eq_some_iff.1 htop
  rw [isFinished, Stack.isEmpty, hlevels]
  rfl

omit [CommandSet σ ω] in
/-- What is queued for a ready session is the line alone. -/
theorem queue_ready {s : Session σ ω} (ht : s.reader.Tidy) (hr : s.reader.Ready) (line : String) :
    s.queue (line.push '\n') =
      (Text.offsets 0 (line.push '\n').toList, { s with reader := {} }) := by
  have hne : line.push '\n' ≠ "" := (Reader.isLines_push line).ne_empty
  have hended : Text.endsWith '\n' (line.push '\n') = true := Reader.isLines_push line
  have hpush : s.reader.push (line.push '\n') =
      { pending := Text.offsets 0 (line.push '\n').toList } := by
    have hgap : (!s.reader.endedLine && !s.reader.isClear && !s.reader.awaitsEscaped) = false := by
      rw [hr.clear, Bool.not_true, Bool.and_false, Bool.false_and]
    rw [Reader.push, if_neg hne, hgap, hr.pending, hr.run_eq ht, hended]
    rfl
  rw [queue, hpush]

/-- **A line in a ready session** is read by a new reader. -/
theorem readPiece_ready {s : Session σ ω} (ht : s.reader.Tidy) (hr : s.reader.Ready)
    (line : String) :
    s.readPiece (line.push '\n') =
      readChars (line.push '\n') (Text.offsets 0 (line.push '\n').toList)
        { s with reader := {} } := by
  rw [readPiece, queue_ready ht hr]

omit [CommandSet σ ω] in
/-- Preparing for a statement changes nothing but the log and the interrupt flag. -/
theorem quiet_prepare (s : Session σ ω) (argv : Words) :
    (s.prepare argv).quiet = s.shell.quiet := by
  rw [prepare, Shell.quiet, Shell.quiet]
  split <;> rfl

/-- A statement without a command is skipped. -/
theorem dispatch_of_isNoop {argv : Words} (h : Dispatch.isNoop argv = true) (s : Shell σ ω)
    {level : Level σ} (htop : s.stack.top? = some level) : s.dispatch argv = (.skipped, s) := by
  simp only [Shell.dispatch, htop, Dispatch.plan, h]
  rfl

theorem perform_of_isNoop {argv : Words} (h : Dispatch.isNoop argv = true) {s : Session σ ω}
    {level : Level σ} (htop : s.shell.stack.top? = some level) :
    (s.perform argv).1 = .skipped ∧ (s.perform argv).2.shell = s.prepare argv := by
  have htop' : (s.prepare argv).stack.top? = some level := htop
  rw [perform_fst, perform_shell, dispatch_of_isNoop h _ htop']
  exact ⟨rfl, rfl⟩

/-- A character that ends no statement, or one that does nothing. -/
theorem readChar_quiet {s : Session σ ω} {level : Level σ} (text : String) {pos : Nat} {c : Char}
    {argv? : Option Words} {reader : Reader} (htop : s.shell.stack.top? = some level)
    (hstep : s.reader.step level.env.lookup pos c = (.ok argv?, reader))
    (hnoop : ∀ argv ∈ argv?, Dispatch.isNoop argv = true) :
    ∃ t, s.readChar text pos c = (none, t) ∧ t.reader = reader ∧
      t.shell.quiet = s.shell.quiet := by
  cases argv? with
  | none =>
    refine ⟨{ s with reader }, ?_, rfl, rfl⟩
    simp only [readChar, htop, hstep]
  | some argv =>
    obtain ⟨hskipped, hshell⟩ := perform_of_isNoop (hnoop argv rfl) (s := { s with reader }) htop
    refine ⟨(({ s with reader } : Session σ ω).perform argv).2, ?_, perform_reader _ argv, ?_⟩
    · simp only [readChar, htop, hstep, hskipped, Dispatch.halt?]
    · rw [hshell]
      exact quiet_prepare _ argv

/-- **Statements that do nothing** leave everything as it is, but for the log and the interrupt
    flag. -/
theorem readChars_quiet {s : Session σ ω} {level : Level σ}
    (htop : s.shell.stack.top? = some level) (hr : s.reader.Settled) (text : String)
    {ps : List (Nat × Char)} {ss : List Words} {m : Statement.Mode} {d : Statement.Draft}
    (hscan : Statement.scan level.env.lookup (ps.map (·.2)) s.reader.run.state s.reader.draft =
      .ok (ss, m, d))
    (hss : ∀ argv ∈ ss, Dispatch.isNoop argv = true) :
    ∃ t, readChars text ps s = (none, t) ∧ t.reader = s.reader.withState m d ∧
      t.shell.quiet = s.shell.quiet := by
  induction ps generalizing s ss with
  | nil =>
    cases hscan
    refine ⟨s, rfl, ?_, rfl⟩
    obtain ⟨shell, ⟨⟨mode, draft, pushed⟩, pending, endedLine⟩, trace, lastStatus⟩ := s
    obtain rfl : pushed = [] := hr
    rfl
  | cons p ps ih =>
    obtain ⟨pos, c⟩ := p
    rw [List.map_cons] at hscan
    obtain ⟨m₁, d₁, more, hread, hrest, rfl⟩ := Statement.scan_cons_eq_ok hscan
    have hstep := Reader.step_eq_read hr level.env.lookup pos c
    simp only [hread] at hstep
    obtain ⟨t₁, hread₁, hreader₁, hquiet₁⟩ := readChar_quiet text htop hstep
      fun argv hargv => hss argv (List.mem_append_left _ (Option.mem_toList.2 hargv))
    have htop₁ : t₁.shell.stack.top? = some level :=
      (congrArg (·.stack.top?) hquiet₁ : t₁.shell.stack.top? = s.shell.stack.top?).trans htop
    have hsettled₁ : t₁.reader.Settled := by
      rw [hreader₁]
      exact s.reader.settled_withState _ _
    have hrest₁ : Statement.scan level.env.lookup (ps.map (·.2)) t₁.reader.run.state
        t₁.reader.draft = .ok (more, m, d) := by
      rw [hreader₁]
      exact hrest
    obtain ⟨t, hrun, hreader, hquiet⟩ := ih htop₁ hsettled₁ hrest₁
      fun argv hargv => hss argv (List.mem_append_right _ hargv)
    refine ⟨t, ?_, ?_, hquiet.trans hquiet₁⟩
    · rw [readChars, hread₁]
      exact hrun
    · rw [hreader, hreader₁]
      rfl

end Session

end NestedShell
