/-
  Comments.

  A comment sign is an ordinary character to the reader.  What makes a comment is that the first
  word of a statement starts with one: such a statement is read like any other, and then skipped.
  So a comment ends where the statement does, and what is left open in it stays open.

  * `Statement.IsComment`: a line that starts with a comment sign;
  * `Statement.scan_commented`: whatever follows the sign, the first statement does nothing;
  * `Session.feed_comment`: a comment that leaves nothing open, and is not followed by a command,
    changes nothing;
  * `Session.feed_open_comment`: other lines that start with a comment sign may do something.
-/
import NestedShell.Proofs.Session.Lines
import NestedShell.Proofs.Session.Ready
import NestedShell.Proofs.Statement.Outline
import NestedShell.Proofs.Statement.Written
import NestedShell.Proofs.Text.Cut

namespace NestedShell.Statement

open Dispatch (isNoop)

/-- Whether the first character of a line, after spaces and tabs, is a comment sign. -/
def IsComment (line : String) : Prop :=
  (line.toList.dropWhile fun c => c == ' ' || c == '\t').head? = some '#'

instance (line : String) : Decidable (IsComment line) := inferInstanceAs (Decidable (_ = _))

/-! ## The first word -/

namespace Draft

/-- The first word of the statement under construction, as far as it is read. -/
def first (d : Draft) : String := d.args.headD d.word

/-- The first word starts with a comment sign. -/
def Commented (d : Draft) : Prop := Text.startsWith "#" d.first = true

/-- The statement under construction is a comment, or one has just ended. -/
def Comments (d : Draft) : Prop :=
  (d.Commented ∧ d.statement = none) ∨
    ∃ argv, d.statement = some argv ∧ argv ≠ [] ∧ isNoop argv = true

variable {d : Draft} (h : d.Commented)
include h

/-- What is added to the word that is being read makes no difference. -/
theorem Commented.append (s : String) : Commented { d with word := d.word ++ s } := by
  obtain ⟨word, name, args, statement, joined⟩ := d
  cases args with
  | nil => exact Text.startsWith_append h s
  | cons w ws => exact h

theorem Commented.closeWord : d.closeWord.Commented := by
  obtain ⟨word, name, args, statement, joined⟩ := d
  cases args with
  | nil => exact h
  | cons w ws => exact h

theorem Commented.breakWord : d.breakWord.Commented := by
  rw [Draft.breakWord]
  split
  exacts [h, h.closeWord]

theorem Commented.substitute (vars : Lookup) : (d.substitute vars).Commented := by
  rw [Draft.substitute]
  split
  exacts [h, h.append _]

/-- A comment that is ended is a statement that does nothing. -/
theorem Commented.closeStatement : d.closeStatement.Comments := by
  obtain ⟨word, name, args, statement, joined⟩ := d
  refine .inr ⟨_, rfl, ?_⟩
  rw [Draft.breakWord]
  cases args with
  | cons w ws =>
    have hw : Text.startsWith "#" w = true := h
    split <;> simp [isNoop, hw, Draft.closeWord]
  | nil =>
    have hw : Text.startsWith "#" word = true := h
    split
    · rename_i hempty
      obtain rfl : word = "" := hempty
      cases hw
    · simp [isNoop, hw, Draft.closeWord]

theorem Commented.edit (hs : d.statement = none) (vars : Lookup) (e : Edit) :
    (d.edit vars e).Comments := by
  cases e with
  | addChar c =>
    have hpush : d.word.push c = d.word ++ String.singleton c :=
      String.toList_injective (by simp)
    have := h.append (String.singleton c)
    rw [← hpush] at this
    exact .inl ⟨this, hs⟩
  | closeWord => exact .inl ⟨h.closeWord, hs⟩
  | breakWord =>
    refine .inl ⟨h.breakWord, ?_⟩
    rw [Draft.edit, Draft.breakWord]
    split <;> exact hs
  | closeStatement => exact h.closeStatement
  | openName | addNameChar | joinLine => exact .inl ⟨h, hs⟩
  | substitute =>
    refine .inl ⟨h.substitute vars, ?_⟩
    rw [Draft.edit, Draft.substitute]
    split <;> exact hs

end Draft

/-! ## Reading a comment -/

/-- A character leads to one edit at most, after the end of a variable. -/
theorem textEdits_shape (p : Place) (c : Char) :
    (textEdits p c).2 = [] ∨ ∃ e, (textEdits p c).2 = [e] := by
  cases p <;>
  · simp only [textEdits]
    split_ifs <;> simp

theorem edits_shape {m m' : Mode} {c : Char} {name : String} {es : List Edit}
    (h : edits m c name = .ok (m', es)) :
    es = [] ∨ (∃ e, es = [e]) ∨ es = [.substitute] ∨ ∃ e, es = [.substitute, e] := by
  have hend (p : Place) : (endEdits p c).2 = [.substitute] ∨
      ∃ e, (endEdits p c).2 = [.substitute, e] := by
    rcases textEdits_shape p c with htext | ⟨e, htext⟩ <;> simp [endEdits, htext]
  cases m with
  | text p =>
    obtain rfl : (textEdits p c).2 = es := congrArg Prod.snd (Except.ok.inj h)
    rcases textEdits_shape p c with htext | htext
    exacts [.inl htext, .inr (.inl htext)]
  | escape p =>
    cases h
    exact .inr (.inl ⟨_, rfl⟩)
  | literal p =>
    cases p <;>
    · simp only [edits] at h
      split_ifs at h <;> cases h <;> simp
  | dollar p | name p =>
    simp only [edits, Except.ok.injEq] at h
    split_ifs at h
    all_goals first
      | cases h; simp; done
      | obtain rfl : (endEdits p c).2 = es := congrArg Prod.snd h
        exact .inr (.inr (hend p))
  | braced p =>
    simp only [edits] at h
    split_ifs at h <;> cases h <;> simp

/-- **A character of a comment** leaves a comment, or ends a statement that does nothing. -/
theorem read_commented {vars : Lookup} {m m' : Mode} {c : Char} {d d' : Draft} (h : d.Commented)
    (hs : d.statement = none) (hread : read vars m c d = .ok (m', d')) : d'.Comments := by
  rw [read_eq_edits] at hread
  cases hedits : edits m c d.name with
  | error cause => simp [hedits, Except.map] at hread
  | ok result =>
    obtain ⟨m₁, es⟩ := result
    obtain ⟨rfl, rfl⟩ : m₁ = m' ∧ es.foldl (Draft.edit vars) d = d' := by
      simpa [hedits, Except.map] using hread
    rcases edits_shape hedits with rfl | ⟨e, rfl⟩ | rfl | ⟨e, rfl⟩
    · exact .inl ⟨h, hs⟩
    · exact h.edit hs vars e
    · exact h.edit hs vars .substitute
    · have hsubstitute : (d.substitute vars).statement = none := by
        rw [Draft.substitute]
        split <;> exact hs
      exact (h.substitute vars).edit hsubstitute vars e

/-- **Whatever is in a comment**, the first statement that ends in it does nothing. -/
theorem scan_commented {vars : Lookup} {cs : List Char} {m m' : Mode} {d d' : Draft}
    {ss : List Words} (h : d.Commented) (hs : d.statement = none)
    (hscan : scan vars cs m d = .ok (ss, m', d')) : ∀ argv ∈ ss.head?, isNoop argv = true := by
  induction cs generalizing m d ss with
  | nil =>
    cases hscan
    nofun
  | cons c cs ih =>
    obtain ⟨m₁, d₁, more, hread, hrest, rfl⟩ := scan_cons_eq_ok hscan
    rcases read_commented h hs hread with ⟨hd₁, hs₁⟩ | ⟨argv, hargv, hne, hnoop⟩
    · rw [hs₁]
      exact ih (d := { d₁ with statement := none }) hd₁ rfl hrest
    · simpa [hargv, hne] using hnoop

/-- A line that starts with a comment sign is read like a comment from there on. -/
theorem scan_isComment {vars : Lookup} {line : String} (h : IsComment line) {ss : List Words}
    {m : Mode} {d : Draft}
    (hscan : scan vars (line.toList ++ ['\n']) (.text .bare) {} = .ok (ss, m, d)) :
    ∀ argv ∈ ss.head?, isNoop argv = true := by
  have hblanks := List.all_takeWhile (p := fun c => c == ' ' || c == '\t') (l := line.toList)
  have hline := List.takeWhile_append_dropWhile (p := fun c => c == ' ' || c == '\t')
    (l := line.toList)
  obtain ⟨rest, hrest⟩ := List.head?_eq_some_iff.1 h
  rw [hrest] at hline
  generalize line.toList.takeWhile _ = blanks at hblanks hline
  have hscanBlanks : scan vars blanks (.text .bare) {} = .ok ([], .text .bare, {}) :=
    scan_blanks vars (by simpa using hblanks) []
  rw [← hline, List.append_assoc, scan_append hscanBlanks, List.cons_append] at hscan
  cases hrest : scan vars ('#' :: (rest ++ ['\n'])) (.text .bare) {} with
  | error e => simp [hrest] at hscan
  | ok result =>
    obtain ⟨ss', m', d'⟩ := result
    obtain ⟨rfl, -, -⟩ : ss' = ss ∧ m' = m ∧ d' = d := by simpa [hrest] using hscan
    obtain ⟨m₁, d₁, more, hread, hmore, rfl⟩ := scan_cons_eq_ok hrest
    cases hread
    exact scan_commented (d := { word := "#" }) rfl rfl hmore

end NestedShell.Statement

namespace NestedShell.Session

open Dispatch (isNoop)
open Statement (IsComment statements? statements?_eq_ok_iff)

variable {σ ω : Type} [CommandSet σ ω]

/-! ## Feeding a comment -/

/-- **A comment changes nothing** in a session that is ready for a fresh statement, as long as it
    leaves nothing open, and the statements that follow it on its line do nothing either: every
    statement of the line is skipped, the levels, the output and the world stay as they are, and the
    session is ready again.  Only the log may grow, and the interrupt flag is lowered. -/
theorem feed_comment {s : Session σ ω} (hs : s.Reached) (hr : s.reader.Ready) {level : Level σ}
    (htop : s.shell.stack.top? = some level) {line : String} (hline : IsComment line)
    {ss : List Words} (hread : statements? line level.env.lookup = .ok ss)
    (hmore : ∀ argv ∈ ss.tail, isNoop argv = true) :
    (s.feed (line.push '\n')).1 = .ready ∧ (s.feed (line.push '\n')).2.reader.Ready ∧
      (s.feed (line.push '\n')).2.shell.quiet = s.shell.quiet ∧
      ∀ argv ∈ ss, (s.prepare argv).dispatch argv = (.skipped, s.prepare argv) := by
  have hscan := statements?_eq_ok_iff.1 hread
  have hnoop : ∀ argv ∈ ss, isNoop argv = true := by
    have hfirst := Statement.scan_isComment hline hscan
    cases ss with
    | nil => nofun
    | cons argv ss => exact List.forall_mem_cons.2 ⟨hfirst argv rfl, hmore⟩
  have hchars : (Text.offsets 0 (line.push '\n').toList).map (·.2) = line.toList ++ ['\n'] := by
    rw [Reader.map_snd_offsets, String.toList_push]
  obtain ⟨t, hrun, hreader, hquiet⟩ := readChars_quiet (s := { s with reader := {} }) htop rfl
    (line.push '\n') (hchars ▸ hscan) hnoop
  have hreader : t.reader = {} := hreader
  have hfeed : s.feed (line.push '\n') = (.ready, t) := by
    rw [feed_of_not_isFinished (isFinished_of_top htop), readPiece_ready hs.tidy hr, hrun,
      flowAfter, hreader]
    rfl
  rw [hfeed]
  exact ⟨rfl, hreader ▸ Reader.ready_fresh, hquiet,
    fun argv hargv => dispatch_of_isNoop (hnoop argv hargv) _ htop⟩

/-- Quotations that are closed, and another comment behind the first one. -/
theorem nesting_comment :
    let line := " \t# 'in; out'; # in"
    IsComment line ∧ (nesting.feed (line.push '\n')).1 = .ready ∧
      (nesting.feed (line.push '\n')).2.shell.quiet = nesting.shell.quiet := by
  intro line
  have hline : IsComment line := by decide +kernel
  have hread (vars : Lookup) :
      statements? " \t# 'in; out'; # in" vars = .ok [["#", "in; out"], ["#", "in"]] := by rfl
  obtain ⟨level, htop⟩ : ∃ level, nesting.shell.stack.top? = some level := ⟨_, rfl⟩
  obtain ⟨hflow, -, hquiet, -⟩ := feed_comment reached_nesting Reader.ready_fresh htop hline
    (hread _) (by decide +kernel)
  exact ⟨hline, hflow, hquiet⟩

/-- **A comment sign does not hide the rest of the line**: a quotation can be left open behind it,
    and the statement after a semicolon is dispatched. -/
theorem feed_open_comment :
    nesting.Reached ∧ nesting.reader.Ready ∧
      (IsComment "# don't" ∧ (nesting.feed ("# don't".push '\n')).1 = .more) ∧
      (IsComment "# then; in" ∧ nesting.shell.stack.depth = 1 ∧
        (nesting.feed ("# then; in".push '\n')).2.shell.stack.depth = 2) :=
  ⟨reached_nesting, Reader.ready_fresh, by decide +kernel, by decide +kernel⟩

end NestedShell.Session
