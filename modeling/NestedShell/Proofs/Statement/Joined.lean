/-
  The flag of a joined line.

  A backslash at the end of a line sets a flag that makes the reader ask for another line.  Nothing
  that is read depends on it, and a newline that ends a statement resets it.

  * `Draft.plain` and `Reader.plain` forget the flag;
  * `Reader.sameStep`: readers that only differ in it read a character in the same way, and after a
    newline they have the same status;
  * `Reader.push_plain`: after a new piece of input they are equal.
-/
import NestedShell.Proofs.Statement.Reading

namespace NestedShell.Statement

/-! ## Drafts -/

/-- The draft without the flag. -/
def Draft.plain (d : Draft) : Draft := { d with joined := false }

namespace Draft

variable (d : Draft)

@[simp]
theorem plain_plain : d.plain.plain = d.plain := rfl

@[simp]
theorem plain_name : d.plain.name = d.name := rfl

@[simp]
theorem plain_breakWord : d.plain.breakWord = d.breakWord.plain := by
  rw [breakWord, breakWord, apply_ite plain]
  rfl

@[simp]
theorem plain_closeStatement : d.plain.closeStatement = d.closeStatement.plain := by
  simp only [closeStatement, plain_breakWord]
  rfl

@[simp]
theorem plain_substitute (vars : Lookup) : d.plain.substitute vars = (d.substitute vars).plain := by
  rw [substitute, substitute, apply_ite plain]
  rfl

end Draft

theorem readText_plain (p : Place) (c : Char) (d : Draft) :
    readText p c d.plain = ((readText p c d).1, (readText p c d).2.plain) := by
  cases p <;>
  · simp only [readText, Draft.plain_breakWord, Draft.plain_closeStatement]
    split_ifs <;> rfl

/-- **A character is read in the same way** with and without the flag. -/
theorem read_plain (vars : Lookup) (m : Mode) (c : Char) (d : Draft) :
    (read vars m c d.plain).map (fun r => (r.1, r.2.plain)) =
      (read vars m c d).map fun r => (r.1, r.2.plain) := by
  cases m with
  | text p => simp only [read, readText_plain, Except.map, Draft.plain_plain]
  | escape p =>
    simp only [read]
    split_ifs <;> rfl
  | literal p =>
    cases p <;>
    · simp only [read]
      split_ifs <;> rfl
  | dollar p | name p =>
    simp only [read, readText_plain, Draft.plain_substitute]
    split_ifs <;> rfl
  | braced p =>
    simp only [read, Draft.plain_name, Draft.plain_substitute]
    split_ifs <;> rfl

/-- What a character does to drafts that only differ in the flag. -/
theorem read_alike {d d' : Draft} (h : d.plain = d'.plain) (vars : Lookup) (m : Mode) (c : Char) :
    (∃ cause, read vars m c d = .error cause ∧ read vars m c d' = .error cause) ∨
      ∃ m₁ d₁ d₁', read vars m c d = .ok (m₁, d₁) ∧ read vars m c d' = .ok (m₁, d₁') ∧
        d₁.plain = d₁'.plain := by
  have hread := read_plain vars m c d
  rw [h, read_plain vars m c d'] at hread
  rcases hd : read vars m c d with cause | ⟨m₁, d₁⟩ <;>
  rcases hd' : read vars m c d' with cause' | ⟨m₁', d₁'⟩ <;>
  rw [hd, hd'] at hread
  · cases hread
    exact .inl ⟨cause, rfl, rfl⟩
  · cases hread
  · cases hread
  · simp only [Except.map, Except.ok.injEq, Prod.mk.injEq] at hread
    obtain ⟨rfl, hplain⟩ := hread
    exact .inr ⟨m₁', d₁, d₁', rfl, rfl, hplain.symm⟩

/-- After a newline that leaves nothing open, the flag does not depend on the one before. -/
theorem joined_read {vars : Lookup} {m : Mode} {d d' d₁ d₁' : Draft}
    (h : read vars m '\n' d = .ok (.text .bare, d₁))
    (h' : read vars m '\n' d' = .ok (.text .bare, d₁')) : d₁.joined = d₁'.joined := by
  have hname : isNameChar '\n' = false := by decide
  have hspecial : '\n' ∉ ['"', '\\', '\'', '$', '{', '}'] := by decide
  simp only [List.mem_cons, List.not_mem_nil, or_false, not_or] at hspecial
  rcases m with p | p | p | p | p | p <;> cases p <;>
    simp [read, readText, hname, hspecial] at h h'
  all_goals
    subst h h'
    rfl

end NestedShell.Statement

namespace NestedShell.Reader

open NestedShell.Statement

/-! ## Readers -/

/-- The reader without the flag. -/
def plain (r : Reader) : Reader := { r with run.bench.scratch := r.draft.plain }

/-- Readers that only differ in the flag. -/
theorem plain_inj {r r' : Reader} (h : r.plain = r'.plain) :
    r.run.state = r'.run.state ∧ r.draft.plain = r'.draft.plain ∧
      r.run.bench.pushed = r'.run.bench.pushed ∧ r.pending = r'.pending ∧
      r.endedLine = r'.endedLine := by
  obtain ⟨⟨m, d, pushed⟩, pending, endedLine⟩ := r
  obtain ⟨⟨m', d', pushed'⟩, pending', endedLine'⟩ := r'
  simp only [plain, mk.injEq, Run.mk.injEq, Bench.mk.injEq] at h
  obtain ⟨⟨hmode, hdraft, hpushed⟩, hpending, hended⟩ := h
  exact ⟨hmode, hdraft, hpushed, hpending, hended⟩

theorem Settled.of_plain {r r' : Reader} (h : r.Settled) (heq : r.plain = r'.plain) :
    r'.Settled := by
  obtain ⟨-, -, hpushed, -, -⟩ := plain_inj heq
  exact hpushed.symm.trans h

theorem plain_withState {r r' : Reader} (h : r.plain = r'.plain) (m : Mode) {d d' : Draft}
    (hd : d.plain = d'.plain) : (r.withState m d).plain = (r'.withState m d').plain := by
  obtain ⟨-, -, -, hpending, hended⟩ := plain_inj h
  simp only [plain, withState, draft, hd, hpending, hended]

/-- What a character does to readers that only differ in the flag. -/
inductive SameStep (r r' : Reader) (vars : Lookup) (pos pos' : Nat) (c : Char) : Prop where
  | refused {fault fault' : Fault} {t t' : Reader} (h : r.step vars pos c = (.error fault, t))
      (h' : r'.step vars pos' c = (.error fault', t'))
  | read {argv : Option Words} {t t' : Reader} (h : r.step vars pos c = (.ok argv, t))
      (h' : r'.step vars pos' c = (.ok argv, t')) (heq : t.plain = t'.plain)
      (hstatus : c = '\n' → t.status = t'.status)

/-- **Readers that only differ in the flag** read a character in the same way, and a newline leaves
    them with the same status. -/
theorem sameStep {r r' : Reader} (hr : r.Settled) (h : r.plain = r'.plain) (vars : Lookup)
    (pos pos' : Nat) (c : Char) : SameStep r r' vars pos pos' c := by
  have hstep := step_eq_read hr vars pos c
  have hstep' := step_eq_read (hr.of_plain h) vars pos' c
  obtain ⟨hmode, hdraft, -, -, -⟩ := plain_inj h
  rw [← hmode] at hstep'
  rcases read_alike hdraft vars r.run.state c with ⟨cause, hd, hd'⟩ | ⟨m, d, d', hd, hd', heq⟩
  · simp only [hd] at hstep
    simp only [hd'] at hstep'
    exact .refused hstep hstep'
  · have hstatement : d.statement = d'.statement := (congrArg Draft.statement heq :)
    simp only [hd] at hstep
    simp only [hd', ← hstatement] at hstep'
    refine .read hstep hstep' (plain_withState h m ?_) fun hc => ?_
    · exact (congrArg (fun e : Draft => { e with statement := none }) heq :)
    · subst hc
      rw [status_withState, status_withState]
      by_cases hm : m = .text .bare
      · subst hm
        rw [joined_read hd hd']
      · simp only [hm, false_and]

/-- **A new piece of input** resets the flag. -/
theorem push_plain {r r' : Reader} (h : r.plain = r'.plain) {text : String} (hne : text ≠ "") :
    r.push text = r'.push text := by
  obtain ⟨⟨m, ⟨word, name, args, statement, joined⟩, pushed⟩, pending, endedLine⟩ := r
  obtain ⟨⟨m', ⟨word', name', args', statement', joined'⟩, pushed'⟩, pending', endedLine'⟩ := r'
  simp only [plain, draft, Draft.plain, mk.injEq, Run.mk.injEq, Bench.mk.injEq,
    Draft.mk.injEq] at h
  obtain ⟨⟨rfl, ⟨rfl, rfl, rfl, rfl, -⟩, rfl⟩, rfl, rfl⟩ := h
  rw [push, push, if_neg hne, if_neg hne]
  rfl

/-! ## Whole lines -/

/-- A text that ends with a newline. -/
def IsLines (text : String) : Prop := Text.endsWith '\n' text = true

theorem IsLines.getLast?_eq {text : String} (h : IsLines text) :
    text.toList.getLast? = some '\n' := by
  simpa [IsLines, Text.endsWith] using h

theorem IsLines.ne_empty {text : String} (h : IsLines text) : text ≠ "" := by
  rintro rfl
  cases h.getLast?_eq

theorem isLines_push (line : String) : IsLines (line.push '\n') := by
  simp [IsLines, Text.endsWith]

theorem IsLines.append {u v : String} (hv : IsLines v) : IsLines (u ++ v) := by
  simp [IsLines, Text.endsWith, List.getLast?_append, hv.getLast?_eq]

/-- Between two lines: all of the input is read, and it ended with a newline. -/
structure BetweenLines (r : Reader) : Prop where
  pending : r.pending = []
  endedLine : r.endedLine = true

theorem BetweenLines.step {r : Reader} (h : r.BetweenLines) (hr : r.Settled) (vars : Lookup)
    (pos : Nat) (c : Char) : (r.step vars pos c).2.BetweenLines := by
  rw [step_eq_read hr]
  split
  · exact ⟨h.pending, h.endedLine⟩
  · exact ⟨rfl, rfl⟩

/-- Nothing sets off a piece of input that comes between two lines. -/
theorem BetweenLines.push {r : Reader} (h : r.BetweenLines) {text : String} (hne : text ≠ "") :
    r.push text =
      { r.plain with
        pending := Text.offsets 0 text.toList, endedLine := Text.endsWith '\n' text } := by
  simp only [Reader.push, if_neg hne, h.pending, h.endedLine]
  rfl

/-- Queuing two texts as one. -/
theorem push_append (r : Reader) {u v : String} (hu : u ≠ "") :
    r.push (u ++ v) =
      { r.push u with
        pending := (r.push u).pending ++ Text.offsets (Text.byteLength u.toList) v.toList
        endedLine := Text.endsWith '\n' (u ++ v) } := by
  have huv : u ++ v ≠ "" := fun h => hu (String.append_eq_empty_iff.1 h).1
  simp only [push, if_neg hu, if_neg huv, String.toList_append, Text.offsets_append,
    Nat.zero_add, List.append_assoc]

end NestedShell.Reader
