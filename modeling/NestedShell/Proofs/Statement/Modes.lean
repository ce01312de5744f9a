/-
  Where a text leads.

  The mode that a text leads to is told by the text alone: neither the values of variables nor the
  words that have been read matter.

  * `Mode.next` is the mode after a character, `modeOf` the mode after a text;
  * `mode_read`: reading a character leads there, unless it is refused;
  * `Named`: the name that is being read is what stands after the dollar sign; `named_read`;
  * `Refused`: which characters are refused after a text; `refused_read`: no others are;
  * `EndsOpen`: a text ends inside an open quotation, or with a newline that a backslash escapes;
    `endsOpen_read`: after a newline something is left open exactly then.
-/
import NestedShell.Proofs.Statement.Reading

namespace NestedShell.Statement

/-! ## Modes -/

/-- The mode after a character of ordinary text. -/
def Mode.ofText : Place → Char → Mode
  | .bare, c =>
    if c = '\\' then .escape .bare
    else if c = '\'' then .literal .bare
    else if c = '"' then .text .quoted
    else if c = '$' then .dollar .bare
    else .text .bare
  | .quoted, c =>
    if c = '"' then .text .bare
    else if c = '\\' then .escape .quoted
    else if c = '\'' then .literal .quoted
    else if c = '$' then .dollar .quoted
    else .text .quoted

/-- The mode after a character. -/
def Mode.next : Mode → Char → Mode
  | .text p, c => ofText p c
  | .escape p, _ => .text p
  | .literal p, c => if c = '\'' then .text p else .literal p
  | .dollar p, c => if c = '{' then .braced p else if isNameChar c then .name p else ofText p c
  | .name p, c => if isNameChar c then .name p else ofText p c
  | .braced p, c => if c = '}' then .text p else .braced p

/-- The mode after a text, from the start of a statement. -/
def modeOf (cs : List Char) : Mode := cs.foldl Mode.next (.text .bare)

theorem modeOf_concat (cs : List Char) (c : Char) : modeOf (cs ++ [c]) = (modeOf cs).next c :=
  List.foldl_append

theorem mode_readText (p : Place) (c : Char) (d : Draft) :
    (readText p c d).1 = Mode.ofText p c := by
  cases p with
  | bare =>
    -- blanks and terminators lead where other characters lead
    by_cases hplain : c = ' ' ∨ c = '\t' ∨ c = ';' ∨ c = '\n'
    · rcases hplain with rfl | rfl | rfl | rfl <;> rfl
    · simp only [not_or] at hplain
      simp only [readText, Mode.ofText, hplain, or_self, if_false]
      split_ifs <;> rfl
  | quoted =>
    simp only [readText, Mode.ofText]
    split_ifs <;> rfl

/-- **Reading a character** leads to the mode after it. -/
theorem mode_read {vars : Lookup} {m m' : Mode} {c : Char} {d d' : Draft}
    (h : read vars m c d = .ok (m', d')) : m' = m.next c := by
  have hmode (p : Place) (d : Draft) {result : Mode × Draft} (h : readText p c d = result) :
      result.1 = Mode.ofText p c := by rw [← h, mode_readText]
  cases m with
  | text p => exact hmode p d (Except.ok.inj h)
  | escape p =>
    cases h
    rfl
  | literal p =>
    cases p <;>
    · simp only [read, Except.ok.injEq] at h
      simp only [Mode.next]
      split_ifs at h ⊢ <;> cases h <;> rfl
  | dollar p =>
    simp only [read, Except.ok.injEq] at h
    simp only [Mode.next]
    split_ifs at h ⊢
    · cases h; rfl
    · cases h; rfl
    · exact hmode p _ h
  | name p =>
    simp only [read, Except.ok.injEq] at h
    simp only [Mode.next]
    split_ifs at h ⊢
    · cases h; rfl
    · exact hmode p _ h
  | braced p =>
    simp only [read] at h
    simp only [Mode.next]
    split_ifs at h ⊢ <;> cases h <;> rfl

/-! ## Names -/

/-- The name that is being read is what stands after the dollar sign that opens the variable. -/
def Named (cs : List Char) (name : String) : Mode → Prop
  | .dollar _ => name = "" ∧ ∃ before, cs = before ++ ['$']
  | .braced p => '}' ∉ name.toList ∧ '\n' ∉ name.toList ∧ ∃ before,
      cs = before ++ '$' :: '{' :: name.toList ∧ modeOf (before ++ ['$']) = .dollar p
  | .text _ | .escape _ | .literal _ | .name _ => True

/-- Ordinary text can open a variable. -/
theorem named_readText (cs : List Char) (c : Char) (p : Place) (d : Draft) :
    Named (cs ++ [c]) (readText p c d).2.name (Mode.ofText p c) := by
  cases p with
  | bare =>
    by_cases hc : c = '$'
    · subst hc
      exact ⟨rfl, cs, rfl⟩
    · simp only [Mode.ofText, hc, if_false]
      split_ifs <;> trivial
  | quoted =>
    by_cases hc : c = '$'
    · subst hc
      exact ⟨rfl, cs, rfl⟩
    · simp only [Mode.ofText, hc, if_false]
      split_ifs <;> trivial

/-- **Reading a character** keeps track of the name. -/
theorem named_read {vars : Lookup} {cs : List Char} {c : Char} {d d' : Draft} {m' : Mode}
    (hd : Named cs d.name (modeOf cs)) (h : read vars (modeOf cs) c d = .ok (m', d')) :
    Named (cs ++ [c]) d'.name m' := by
  obtain rfl := mode_read h
  generalize hm : modeOf cs = m at hd h ⊢
  cases m with
  | text p =>
    obtain rfl : (readText p c d).2 = d' := congrArg Prod.snd (Except.ok.inj h)
    exact named_readText ..
  | escape p => trivial
  | literal p =>
    simp only [Mode.next]
    split_ifs <;> trivial
  | dollar p =>
    simp only [read, Except.ok.injEq, Mode.next] at h ⊢
    split_ifs at h ⊢ with hbrace hname
    · cases h
      obtain ⟨hempty, before, rfl⟩ := hd
      subst hbrace
      rw [hempty]
      exact ⟨by simp, by simp, before, by simp, hm⟩
    · trivial
    · obtain rfl : (readText p c (d.substitute vars)).2 = d' := congrArg Prod.snd h
      exact named_readText ..
  | name p =>
    simp only [read, Except.ok.injEq, Mode.next] at h ⊢
    split_ifs at h ⊢ with hname
    · trivial
    · obtain rfl : (readText p c (d.substitute vars)).2 = d' := congrArg Prod.snd h
      exact named_readText ..
  | braced p =>
    simp only [read, Mode.next] at h ⊢
    split_ifs at h ⊢ with hclose hempty hline
    · trivial
    · cases h
      obtain ⟨hbrace, hnewline, before, rfl, hopen⟩ := hd
      refine ⟨?_, ?_, before, ?_, hopen⟩
      · simpa [Draft.addNameChar] using ⟨hbrace, Ne.symm hclose⟩
      · simpa [Draft.addNameChar] using ⟨hnewline, Ne.symm hline⟩
      · simp [Draft.addNameChar]

/-- Which characters are refused after a text, and why. -/
inductive Refused (cs : List Char) : Char → Cause → Prop where
  /-- the brace that closes an empty name -/
  | emptyName {before : List Char} {p : Place} (hcs : cs = before ++ ['$', '{'])
      (hopen : modeOf (before ++ ['$']) = .dollar p) : Refused cs '}' .emptySubstitution
  /-- a newline inside the braces -/
  | lineEnd {before : List Char} {name : String} {p : Place}
      (hcs : cs = before ++ '$' :: '{' :: name.toList)
      (hopen : modeOf (before ++ ['$']) = .dollar p)
      (hname : '}' ∉ name.toList ∧ '\n' ∉ name.toList) : Refused cs '\n' (.unterminatedName name)

/-- **A character is refused** only inside the braces of a variable. -/
theorem refused_read {vars : Lookup} {cs : List Char} {c : Char} {d : Draft} {cause : Cause}
    (hd : Named cs d.name (modeOf cs)) (h : read vars (modeOf cs) c d = .error cause) :
    Refused cs c cause := by
  generalize modeOf cs = m at hd h
  cases m with
  | text p | escape p | dollar p | name p => cases h
  | literal p => cases p <;> cases h
  | braced p =>
    obtain ⟨hbrace, hnewline, before, rfl, hopen⟩ := hd
    simp only [read] at h
    split_ifs at h with hclose hempty hline
    · cases h
      subst hclose
      exact .emptyName (by simp [hempty]) hopen
    · cases h
      subst hline
      exact .lineEnd rfl hopen ⟨hbrace, hnewline⟩

theorem Refused.kind {cs : List Char} {c : Char} {cause : Cause} (h : Refused cs c cause) :
    cause.kind = .lexical := by
  cases h <;> rfl

/-! ## What is left open at the end of a line -/

/-- Whether a mode is inside a quotation. -/
def Mode.InQuotes : Mode → Prop
  | .literal _ => True
  | .text p | .escape p | .dollar p | .name p | .braced p => p = .quoted

/-- A text ends inside an open quotation, or with a newline that a backslash escapes. -/
def EndsOpen (cs : List Char) : Prop :=
  (modeOf cs).InQuotes ∨ ∃ before p, cs = before ++ ['\n'] ∧ modeOf before = .escape p

theorem endsOpen_newline (cs : List Char) :
    EndsOpen (cs ++ ['\n']) ↔
      ((modeOf cs).next '\n').InQuotes ∨ ∃ p, modeOf cs = .escape p := by
  rw [EndsOpen, modeOf_concat]
  refine or_congr_right ⟨?_, ?_⟩
  · rintro ⟨before, p, hcs, hmode⟩
    obtain rfl := List.append_cancel_right hcs
    exact ⟨p, hmode⟩
  · rintro ⟨p, hmode⟩
    exact ⟨cs, p, rfl, hmode⟩

/-- **After a newline** something is left open exactly if the text ends open. -/
theorem endsOpen_read {vars : Lookup} {cs : List Char} {d d' : Draft} {m' : Mode}
    (h : read vars (modeOf cs) '\n' d = .ok (m', d')) :
    EndsOpen (cs ++ ['\n']) ↔ ¬(m' = .text .bare ∧ d'.joined = false) := by
  have hname : isNameChar '\n' = false := by decide
  rw [endsOpen_newline]
  obtain rfl := mode_read h
  generalize modeOf cs = m at h ⊢
  rcases m with p | p | p | p | p | p <;> cases p <;>
    simp [read, readText, hname, Mode.next, Mode.ofText, Mode.InQuotes] at h ⊢
  all_goals exact h ▸ rfl

end NestedShell.Statement
