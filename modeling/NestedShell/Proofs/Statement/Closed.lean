/-
  Texts that leave nothing open, and what can be put behind them.

  When a text is read without a fault and leaves nothing open, then nothing of it is left in the
  draft, and a semicolon behind it does what a newline does.  So what stands behind the terminator is
  read as if it stood alone.

  * `scan_cons_eq_ok`, `scan_concat_eq_ok`: a scan by its first and by its last character;
  * `draft_scan_line`: after such a text and a newline the draft is a new one;
    `statements?_eq_ok_iff`: the statements of such a text are those of the line;
  * `read_semicolon`: a semicolon ends a statement where a newline does;
  * `statements?_behind`: two texts with a terminator between them.
-/
import NestedShell.Proofs.Statement.Pieces
import NestedShell.Proofs.Statement.Written

namespace NestedShell.Statement

/-! ## The first and the last character -/

/-- What a text is read as begins with what its first character is read as. -/
theorem scan_cons_eq_ok {vars : Lookup} {c : Char} {cs : List Char} {m m' : Mode} {d d' : Draft}
    {ss : List Words} (h : scan vars (c :: cs) m d = .ok (ss, m', d')) :
    ∃ m₁ d₁ more, read vars m c d = .ok (m₁, d₁) ∧
      scan vars cs m₁ { d₁ with statement := none } = .ok (more, m', d') ∧
      ss = (d₁.statement.filter (!·.isEmpty)).toList ++ more := by
  rw [scan] at h
  cases hread : read vars m c d with
  | error cause => simp [hread] at h
  | ok result =>
    obtain ⟨m₁, d₁⟩ := result
    simp only [hread] at h
    cases hscan : scan vars cs m₁ { d₁ with statement := none } with
    | error e => simp [hscan] at h
    | ok result =>
      obtain ⟨more, m₂, d₂⟩ := result
      simp only [hscan, Except.ok.injEq, Prod.mk.injEq] at h
      obtain ⟨hss, rfl, rfl⟩ := h
      exact ⟨m₁, d₁, more, rfl, hscan, hss.symm⟩

/-- What a text is read as ends with what its last character is read as. -/
theorem scan_concat_eq_ok {vars : Lookup} {cs : List Char} {c : Char} {m m' : Mode} {d d' : Draft}
    {ss : List Words} :
    scan vars (cs ++ [c]) m d = .ok (ss, m', d') ↔ ∃ before m₁ d₁ d₂,
      scan vars cs m d = .ok (before, m₁, d₁) ∧ read vars m₁ c d₁ = .ok (m', d₂) ∧
      { d₂ with statement := none } = d' ∧
      ss = before ++ (d₂.statement.filter (!·.isEmpty)).toList := by
  constructor
  · intro h
    cases hcs : scan vars cs m d with
    | error e => simp [scan_append_error hcs] at h
    | ok result =>
      obtain ⟨before, m₁, d₁⟩ := result
      rw [scan_append hcs] at h
      cases hlast : scan vars [c] m₁ d₁ with
      | error e => simp [hlast] at h
      | ok result =>
        obtain ⟨more, m₂, d₂⟩ := result
        obtain ⟨rfl, rfl, rfl⟩ : before ++ more = ss ∧ m₂ = m' ∧ d₂ = d' := by
          simpa [hlast] using h
        obtain ⟨m₃, d₃, last, hread, hrest, rfl⟩ := scan_cons_eq_ok hlast
        cases hrest
        exact ⟨before, m₁, d₁, d₃, rfl, hread, rfl, by rw [List.append_nil]⟩
  · rintro ⟨before, m₁, d₁, d₂, hcs, hread, rfl, rfl⟩
    rw [scan_append hcs]
    simp [scan, hread]

/-! ## The name of a variable -/

/-- Whether no variable is being read. -/
def Mode.Unnamed : Mode → Prop
  | .text _ | .escape _ | .literal _ => True
  | .dollar _ | .name _ | .braced _ => False

theorem name_substitute (vars : Lookup) (d : Draft) : (d.substitute vars).name = "" := by
  rw [Draft.substitute]
  split
  · assumption
  · rfl

theorem name_breakWord (d : Draft) : d.breakWord.name = d.name := by
  rw [Draft.breakWord]
  split <;> rfl

theorem word_breakWord (d : Draft) : d.breakWord.word = "" := by
  rw [Draft.breakWord]
  split
  · assumption
  · rfl

theorem name_readText {p : Place} {c : Char} {d d' : Draft} {m : Mode}
    (h : readText p c d = (m, d')) (hd : d.name = "") : d'.name = "" := by
  obtain rfl : (readText p c d).2 = d' := congrArg Prod.snd h
  cases p <;>
  · simp only [readText]
    split_ifs <;> simp [Draft.closeStatement, Draft.closeWord, Draft.openName, Draft.addChar,
      name_breakWord, hd]

/-- Where no variable is being read, the name is empty. -/
theorem name_read {vars : Lookup} {m m' : Mode} {c : Char} {d d' : Draft}
    (h : read vars m c d = .ok (m', d')) (hd : m.Unnamed → d.name = "") :
    m'.Unnamed → d'.name = "" := by
  intro hm'
  cases m with
  | text p => exact name_readText (Except.ok.inj h) (hd trivial)
  | escape p =>
    cases h
    have hname := hd trivial
    split <;> exact hname
  | literal p =>
    have hname := hd trivial
    cases p <;>
    · simp only [read] at h
      split at h <;> cases h <;> exact hname
  | dollar p | name p =>
    simp only [read, Except.ok.injEq] at h
    split_ifs at h
    all_goals first
      | exact name_readText h (name_substitute vars d)
      | cases h; exact absurd hm' id
  | braced p =>
    simp only [read] at h
    split_ifs at h <;> cases h
    · exact name_substitute vars d
    · exact absurd hm' id

theorem name_scan {vars : Lookup} {cs : List Char} {m m' : Mode} {d d' : Draft} {ss : List Words}
    (h : scan vars cs m d = .ok (ss, m', d')) (hd : m.Unnamed → d.name = "") :
    m'.Unnamed → d'.name = "" := by
  induction cs generalizing m d ss with
  | nil =>
    cases h
    exact hd
  | cons c cs ih =>
    obtain ⟨m₁, d₁, more, hread, hscan, -⟩ := scan_cons_eq_ok h
    exact ih hscan fun hm₁ => (name_read hread hd hm₁ :)

/-! ## Lines that leave nothing open -/

/-- A newline that is not joined ends the statement. -/
theorem draft_read_newline {vars : Lookup} {m : Mode} {d d' : Draft}
    (h : read vars m '\n' d = .ok (.text .bare, d')) (hd' : d'.joined = false) :
    d'.word = "" ∧ d'.args = [] := by
  have hname : isNameChar '\n' = false := by decide
  have hspecial : '\n' ∉ ['"', '\\', '\'', '$', '{', '}'] := by decide
  simp only [List.mem_cons, List.not_mem_nil, or_false, not_or] at hspecial
  rcases m with p | p | p | p | p | p <;> cases p <;>
    simp [read, readText, hname, hspecial] at h
  all_goals
    subst h
    first
      | exact ⟨word_breakWord _, rfl⟩
      | cases hd'

/-- **After a line that leaves nothing open** the draft is a new one. -/
theorem draft_scan_line {vars : Lookup} {cs : List Char} {ss : List Words} {m : Mode}
    {d d' : Draft} (hd : m.Unnamed → d.name = "")
    (h : scan vars (cs ++ ['\n']) m d = .ok (ss, .text .bare, d')) (hd' : d'.joined = false) :
    d' = {} := by
  have hname : d'.name = "" := name_scan h hd trivial
  obtain ⟨before, m₁, d₁, d₂, -, hread, rfl, -⟩ := scan_concat_eq_ok.1 h
  obtain ⟨hword, hargs⟩ := draft_read_newline hread hd'
  obtain ⟨word, name, args, statement, joined⟩ := d₂
  simp only at hname hword hargs hd'
  subst hname hword hargs hd'
  rfl

/-- The statements of a text are those of a line, after which nothing is left. -/
theorem statements?_eq_ok_iff {vars : Lookup} {text : String} {ss : List Words} :
    statements? text vars = .ok ss ↔
      scan vars (text.toList ++ ['\n']) (.text .bare) {} = .ok (ss, .text .bare, {}) := by
  rw [statements?_eq_scan]
  cases hscan : scan vars (text.toList ++ ['\n']) (.text .bare) {} with
  | error e => simp
  | ok result =>
    obtain ⟨ss', m, d⟩ := result
    simp only [Except.ok.injEq, Prod.mk.injEq]
    by_cases h : m = .text .bare ∧ d.joined = false
    · obtain ⟨rfl, hd⟩ := h
      obtain rfl := draft_scan_line (fun _ => rfl) hscan hd
      simp
    · rw [if_neg h]
      simp only [reduceCtorEq, false_iff, not_and]
      rintro - rfl rfl
      exact h ⟨rfl, rfl⟩

/-! ## Texts behind a terminator -/

/-- **A semicolon ends a statement** where a newline does and is not joined. -/
theorem read_semicolon {vars : Lookup} {m : Mode} {d d' : Draft}
    (h : read vars m '\n' d = .ok (.text .bare, d')) (hd' : d'.joined = false) :
    read vars m ';' d = .ok (.text .bare, d') := by
  have hnewline : isNameChar '\n' = false := by decide
  have hsemicolon : isNameChar ';' = false := by decide
  cases m with
  | text p | dollar p | name p =>
    cases p with
    | bare => simpa [read, readText, hnewline, hsemicolon] using h
    | quoted => simp [read, readText, hnewline] at h
  | escape p =>
    -- the newline is joined to the next line
    simp only [read, if_true, Except.ok.injEq, Prod.mk.injEq] at h
    obtain ⟨-, rfl⟩ := h
    cases hd'
  | literal p => cases p <;> simp [read] at h
  | braced p => simp [read] at h

/-- A text that leaves nothing open is read to its end by either terminator. -/
theorem scan_terminated {vars : Lookup} {text : String} {ss : List Words}
    (h : statements? text vars = .ok ss) (t : Terminator) :
    scan vars (text.toList ++ [t.char]) (.text .bare) {} = .ok (ss, .text .bare, {}) := by
  have hline := statements?_eq_ok_iff.1 h
  cases t with
  | newline => exact hline
  | semicolon =>
    obtain ⟨before, m, d, d', htext, hread, hfresh, hss⟩ := scan_concat_eq_ok.1 hline
    have hsemicolon := read_semicolon hread (congrArg Draft.joined hfresh)
    exact scan_concat_eq_ok.2 ⟨before, m, d, d', htext, hsemicolon, hfresh, hss⟩

/-! ## Faults and their places -/

/-- A fault belongs to one of the characters. -/
theorem lt_length_of_scan_error {vars : Lookup} {cs : List Char} {m : Mode} {d : Draft}
    {cause : Cause} {n : Nat} (h : scan vars cs m d = .error (cause, n)) : n < cs.length := by
  induction cs generalizing m d n with
  | nil => cases h
  | cons c cs ih =>
    rw [scan] at h
    rw [List.length_cons]
    split at h
    · cases h
      omega
    · split at h
      · cases h
      · rename_i hrest
        cases h
        have := ih hrest
        omega

/-- A text that cannot be split has a fault with a place. -/
theorem exists_position {vars : Lookup} {text : String} {fault : Fault}
    (h : statements? text vars = .error fault) : ∃ pos, fault.position = some pos := by
  rw [statements?_eq_scan] at h
  split at h
  · split at h
    · cases h
    · cases h
      exact ⟨_, rfl⟩
  · rename_i cause n hscan
    cases h
    have hlt := lt_length_of_scan_error hscan
    rw [← Text.length_offsets 0] at hlt
    exact ⟨_, by rw [List.getElem?_eq_getElem hlt]; rfl⟩

/-! ## Two texts -/

/-- What stands behind a text and a terminator is read as if it stood alone. -/
theorem statements?_append {vars : Lookup} {first : String} {ss : List Words}
    (h : statements? first vars = .ok ss) (t : Terminator) (second : String) :
    statements? (first ++ String.singleton t.char ++ second) vars =
      match statements? second vars with
      | .ok more => .ok (ss ++ more)
      | .error fault => .error
          { fault with position := fault.position.map (first.utf8ByteSize + 1 + ·) } := by
  have hchars : (first ++ String.singleton t.char ++ second).toList ++ ['\n'] =
      (first.toList ++ [t.char]) ++ (second.toList ++ ['\n']) := by simp
  have hterminator : t.char.utf8Size = 1 := by cases t <;> rfl
  have hbytes : Text.byteLength (first.toList ++ [t.char]) = first.utf8ByteSize + 1 := by
    rw [show first.toList ++ [t.char] = (first ++ String.singleton t.char).toList by simp,
      Text.byteLength_toList, String.utf8ByteSize_append, String.utf8ByteSize_singleton,
      hterminator]
  rw [statements?_eq_scan, statements?_eq_scan second, hchars, scan_append (scan_terminated h t)]
  rcases scan vars (second.toList ++ ['\n']) (.text .bare) {} with ⟨cause, n⟩ | ⟨more, m, d⟩
  · simp only [Text.offset_behind, hbytes]
  · simp only
    split
    · rfl
    · simp only [Option.map_some, String.utf8ByteSize_append, String.utf8ByteSize_singleton,
        hterminator]

/-- **Two texts with a terminator between them.**  When the first one is split, then so are both
    together, and when the second one is not, the fault is the same one, further behind. -/
theorem statements?_behind (vars : Lookup) (first second : String) (t : Terminator)
    {ss : List Words} (h : statements? first vars = .ok ss) :
    (∀ more, statements? second vars = .ok more →
      statements? (first ++ String.singleton t.char ++ second) vars = .ok (ss ++ more)) ∧
    ∀ fault, statements? second vars = .error fault → ∃ pos, fault.position = some pos ∧
      statements? (first ++ String.singleton t.char ++ second) vars =
        .error { fault with position := some (pos + (first.utf8ByteSize + 1)) } := by
  rw [statements?_append h]
  constructor
  · intro more hmore
    rw [hmore]
  · intro fault hfault
    obtain ⟨pos, hpos⟩ := exists_position hfault
    refine ⟨pos, hpos, ?_⟩
    simp only [hfault, hpos, Option.map_some, Nat.add_comm]

/-- A variable that the terminator ends, and an empty name behind it. -/
theorem statements?_behind_variable :
    let vars : Lookup := fun name => if name = "X" then some "1; 2" else none
    statements? "a\nb $X" vars = .ok [["a"], ["b", "1; 2"]] ∧
      statements? "é $\x7b\x7d" vars = .error ⟨.emptySubstitution, some 5⟩ ∧
      statements? ("a\nb $X" ++ String.singleton ';' ++ "é $\x7b\x7d") vars =
        .error ⟨.emptySubstitution, some 12⟩ := by
  intro vars
  have hfirst : statements? "a\nb $X" vars = .ok [["a"], ["b", "1; 2"]] := by rfl
  have hsecond : statements? "é $\x7b\x7d" vars = .error ⟨.emptySubstitution, some 5⟩ := by rfl
  obtain ⟨pos, hpos, hboth⟩ :=
    (statements?_behind vars "a\nb $X" "é $\x7b\x7d" .semicolon hfirst).2 _ hsecond
  cases hpos
  exact ⟨hfirst, hsecond, hboth⟩

end NestedShell.Statement
