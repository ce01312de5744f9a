/-
  Variables with and without braces.

  With braces a name ends at the closing one.  Without them it ends before the first character that
  cannot stand in a name, and that character is read as what it is in the text around the variable.
  So the two ways to write a variable are read alike, and all that the braces change is how far
  behind the faults of the text behind them stand.

  * `unbraced` and `braced` write a variable; `IsName`, `IsBracedName`: the names that can be written
    like this; `scan_unbraced`, `scan_braced`: how they are read;
  * `read_behind_name`: the character behind a name is read in the text around the variable;
  * `Reader.TakesName`: what a reader makes of an unbraced variable; `takesName`: every reader does;
  * `Fault.movedBehind`: a fault with its place moved, if it is behind a text;
    `statements?_braced`: the statements of a text with and without the braces.
-/
import NestedShell.Proofs.Statement.Closed
import NestedShell.Proofs.Statement.Faults

namespace NestedShell.Statement

/-! ## Names -/

/-- A variable without braces. -/
def unbraced (name : String) : String := String.ofList ('$' :: name.toList)

/-- A variable with braces. -/
def braced (name : String) : String := String.ofList ('$' :: '{' :: name.toList ++ ['}'])

/-- The names that can be written without braces. -/
structure IsName (name : String) : Prop where
  ne_empty : name ≠ ""
  chars : ∀ c ∈ name.toList, isNameChar c = true

/-- The names that can be written in braces. -/
structure IsBracedName (name : String) : Prop where
  ne_empty : name ≠ ""
  chars : ∀ c ∈ name.toList, c ≠ '}' ∧ c ≠ '\n'

theorem IsName.isBracedName {name : String} (h : IsName name) : IsBracedName name where
  ne_empty := h.ne_empty
  chars c hc := by
    have hchar := h.chars c hc
    constructor <;>
    · rintro rfl
      cases hchar

/-- The value of a variable is added to the word. -/
def Draft.addValue (vars : Lookup) (name : String) (d : Draft) : Draft :=
  { d with name := "", word := d.word ++ (vars name).getD "" }

section
variable {vars : Lookup} {p : Place} {d : Draft} {name : String}

theorem substitute_named (h : name ≠ "") :
    ({ d with name } : Draft).substitute vars = d.addValue vars name := if_neg h

/-- Characters that are added to a name are collected. -/
theorem scan_collected {m : Mode} {cs : List Char}
    (h : ∀ c ∈ cs, ∀ d, read vars m c d = .ok (m, d.addNameChar c)) (hd : d.statement = none) :
    scan vars cs m d = .ok ([], m, { d with name := d.name ++ String.ofList cs }) := by
  induction cs generalizing d with
  | nil => simp [scan]
  | cons c cs ih =>
    obtain ⟨hc, hcs⟩ := List.forall_mem_cons.1 h
    have hname : d.name ++ String.ofList (c :: cs) =
        (d.addNameChar c).name ++ String.ofList cs := by
      rw [← String.toList_inj]
      simp [Draft.addNameChar]
    rw [hname]
    exact scan_append_ok (scan_singleton (hc d) hd) (ih hcs hd)

/-- The characters of a name without braces. -/
theorem scan_nameChars {cs : List Char} (h : ∀ c ∈ cs, isNameChar c = true)
    (hd : d.statement = none) :
    scan vars cs (.name p) d = .ok ([], .name p, { d with name := d.name ++ String.ofList cs }) :=
  scan_collected (fun c hc d => by rw [read, if_pos (h c hc)]) hd

/-- The characters of a name in braces. -/
theorem scan_bracedChars {cs : List Char} (h : ∀ c ∈ cs, c ≠ '}' ∧ c ≠ '\n')
    (hd : d.statement = none) :
    scan vars cs (.braced p) d =
      .ok ([], .braced p, { d with name := d.name ++ String.ofList cs }) :=
  scan_collected (fun c hc d => by rw [read, if_neg (h c hc).1, if_neg (h c hc).2]) hd

theorem read_dollar (vars : Lookup) (p : Place) (d : Draft) :
    read vars (.text p) '$' d = .ok (.dollar p, d.openName) := by
  cases p <;> rfl

/-- **A name without braces** takes all of its characters, and is open after them. -/
theorem scan_unbraced (h : IsName name) (hd : d.statement = none) :
    scan vars (unbraced name).toList (.text p) d = .ok ([], .name p, { d with name }) := by
  obtain ⟨hne, hchars⟩ := h
  obtain ⟨c, cs, hname⟩ := List.exists_cons_of_ne_nil (mt String.toList_eq_nil_iff.1 hne)
  rw [hname] at hchars
  obtain ⟨hc, hcs⟩ := List.forall_mem_cons.1 hchars
  have hopen : scan vars ['$'] (.text p) d = .ok ([], .dollar p, d.openName) :=
    scan_singleton (read_dollar vars p d) hd
  have hfirst : read vars (.dollar p) c d.openName = .ok (.name p, d.openName.addNameChar c) := by
    have hbrace : c ≠ '{' := by rintro rfl; cases hc
    simp [read, hbrace, hc]
  have hrest : scan vars cs (.name p) (d.openName.addNameChar c) = .ok ([], .name p,
      { d with name := (d.openName.addNameChar c).name ++ String.ofList cs }) :=
    scan_nameChars hcs hd
  have hall : (d.openName.addNameChar c).name ++ String.ofList cs = name := by
    rw [← String.toList_inj, hname]
    simp [Draft.addNameChar, Draft.openName]
  rw [hall] at hrest
  have htext : (unbraced name).toList = ['$'] ++ ([c] ++ cs) := by simp [unbraced, hname]
  rw [htext]
  exact scan_append_ok hopen (scan_append_ok (scan_singleton hfirst hd) hrest)

/-- A name in braces, up to the closing one. -/
theorem scan_openBrace {cs : List Char} (h : ∀ c ∈ cs, c ≠ '}' ∧ c ≠ '\n')
    (hd : d.statement = none) :
    scan vars ('$' :: '{' :: cs) (.text p) d =
      .ok ([], .braced p, { d with name := String.ofList cs }) := by
  have hopen : scan vars ['$'] (.text p) d = .ok ([], .dollar p, d.openName) :=
    scan_singleton (read_dollar vars p d) hd
  have hbrace : scan vars ['{'] (.dollar p) d.openName = .ok ([], .braced p, d.openName) :=
    scan_singleton rfl hd
  have hchars : scan vars cs (.braced p) d.openName = .ok ([], .braced p,
      { d with name := d.openName.name ++ String.ofList cs }) := scan_bracedChars h hd
  rw [show d.openName.name ++ String.ofList cs = String.ofList cs from String.empty_append] at hchars
  exact scan_append_ok hopen (scan_append_ok hbrace hchars)

/-- **A name in braces** is read up to the closing one, and its value is added. -/
theorem scan_braced (h : IsBracedName name) (hd : d.statement = none) :
    scan vars (braced name).toList (.text p) d = .ok ([], .text p, d.addValue vars name) := by
  have hopen : scan vars ('$' :: '{' :: name.toList) (.text p) d =
      .ok ([], .braced p, { d with name := String.ofList name.toList }) :=
    scan_openBrace h.chars hd
  rw [String.ofList_toList] at hopen
  have hclose : scan vars ['}'] (.braced p) { d with name } =
      .ok ([], .text p, d.addValue vars name) := by
    refine scan_singleton ?_ hd
    rw [read, if_pos rfl, if_neg h.ne_empty, substitute_named h.ne_empty]
  have htext : (braced name).toList = '$' :: '{' :: name.toList ++ ['}'] := by simp [braced]
  rw [htext]
  exact scan_append_ok hopen hclose

/-- **The character behind a name** is read in the text around the variable. -/
theorem read_behind_name (h : name ≠ "") {c : Char} (hc : isNameChar c = false) :
    read vars (.name p) c { d with name } = read vars (.text p) c (d.addValue vars name) := by
  simp only [read, hc, substitute_named h, Bool.false_eq_true, if_false]

/-- A text that does not go on with a character of names is read in the text around the variable. -/
theorem scan_behind_name (h : name ≠ "") {c : Char} (hc : isNameChar c = false) (cs : List Char) :
    scan vars (c :: cs) (.name p) { d with name } =
      scan vars (c :: cs) (.text p) (d.addValue vars name) := by
  rw [scan, scan, read_behind_name h hc]

end

end NestedShell.Statement

namespace NestedShell.Reader

open NestedShell.Statement

/-! ## Readers -/

/-- What a reader that stands in ordinary text makes of an unbraced variable. -/
structure TakesName (vars : Lookup) (p : Place) (name : String) (r : Reader) : Prop where
  /-- It takes all characters of the name. -/
  taken : ∀ start, drainOf vars (Text.offsets start (unbraced name).toList) r =
    (.ok [], r.withState (.name p) { r.draft with name })
  /-- What cannot stand in the name is read in the text around the variable, behind the value. -/
  ended : ∀ pos c, isNameChar c = false →
    (r.withState (.name p) { r.draft with name }).step vars pos c =
      (r.withState (.text p) (r.draft.addValue vars name)).step vars pos c

theorem takesName {vars : Lookup} {p : Place} {name : String} {r : Reader} (hname : IsName name)
    (hr : r.Settled) (hclean : r.draft.statement = none) (hpending : r.pending = [])
    (hp : r.run.state = .text p) : r.TakesName vars p name where
  taken start := by
    rw [drainOf_eq_scan hr, map_snd_offsets, hp, scan_unbraced hname hclean, ← hpending]
    rfl
  ended pos c hc := by
    have hread : read vars (.name p) c { r.draft with name } =
        read vars (.text p) c (r.draft.addValue vars name) := read_behind_name hname.ne_empty hc
    rw [step_eq_read (settled_withState ..), step_eq_read (settled_withState ..)]
    simp only [draft, withState] at hread ⊢
    rw [hread]

/-- A new reader that has read a text and stands in ordinary text: it comes from a scan of the text,
    or it is new again because of a fault. -/
theorem feed_fresh_cases {vars : Lookup} {text : String} {p : Place}
    (h : (feed vars text {}).2.run.state = .text p) :
    (∃ ss d endedLine, scan vars text.toList (.text .bare) {} = .ok (ss, .text p, d) ∧
        (feed vars text {}).2 = ({ endedLine } : Reader).withState (.text p) d) ∨
      ∃ e, scan vars text.toList (.text .bare) {} = .error e ∧ (feed vars text {}).2 = {} := by
  by_cases hne : text = ""
  · subst hne
    cases h
    exact .inl ⟨[], {}, true, rfl, rfl⟩
  · rw [feed_fresh hne] at h ⊢
    cases hscan : scan vars text.toList (.text .bare) {} with
    | error e => exact .inr ⟨e, rfl, rfl⟩
    | ok result =>
      obtain ⟨ss, m, d⟩ := result
      rw [hscan] at h
      obtain rfl : m = .text p := h
      exact .inl ⟨ss, d, _, rfl, rfl⟩

end NestedShell.Reader

namespace NestedShell

/-! ## Places of faults -/

/-- The fault, further behind if its place is behind a text. -/
def Fault.movedBehind (text : String) (more : Nat) (fault : Fault) : Fault :=
  { fault with
    position := fault.position.map fun pos => if text.utf8ByteSize ≤ pos then pos + more else pos }

namespace Fault

theorem movedBehind_behind (cause : Cause) (text : String) (more : Nat) (offset : Option Nat) :
    Fault.movedBehind text more ⟨cause, offset.map (text.utf8ByteSize + ·)⟩ =
      ⟨cause, offset.map (text.utf8ByteSize + more + ·)⟩ := by
  cases offset with
  | none => rfl
  | some n =>
    simp only [movedBehind, Option.map_some, Nat.le_add_right, if_true, Nat.add_right_comm]

theorem movedBehind_inside (cause : Cause) {text : String} (more : Nat) {pos : Nat}
    (h : pos < text.utf8ByteSize) :
    Fault.movedBehind text more ⟨cause, some pos⟩ = ⟨cause, some pos⟩ := by
  simp only [movedBehind, Option.map_some, if_neg (Nat.not_le.2 h)]

end Fault

namespace Statement

/-- A variable takes two bytes more in braces. -/
theorem utf8ByteSize_braced (before name : String) :
    (before ++ braced name).utf8ByteSize = (before ++ unbraced name).utf8ByteSize + 2 := by
  have hbraced : braced name = "$" ++ ("\x7b" ++ (name ++ "\x7d")) := by
    rw [← String.toList_inj]
    simp [braced]
  have hunbraced : unbraced name = "$" ++ name := by
    rw [← String.toList_inj]
    simp [unbraced]
  have hopen : "\x7b".utf8ByteSize = 1 := rfl
  have hclose : "\x7d".utf8ByteSize = 1 := rfl
  rw [hbraced, hunbraced]
  simp only [String.utf8ByteSize_append, hopen, hclose]
  omega

/-- A fault of a text is a fault of every text that begins with it, at the same place. -/
theorem statements?_of_scan_error {vars : Lookup} {before : String} {cause : Cause} {n : Nat}
    (h : scan vars before.toList (.text .bare) {} = .error (cause, n)) :
    ∃ pos < before.utf8ByteSize, ∀ after,
      statements? (before ++ after) vars = .error ⟨cause, some pos⟩ := by
  have hlt : n < (Text.offsets 0 before.toList).length := by
    rw [Text.length_offsets]
    exact lt_length_of_scan_error h
  obtain ⟨⟨pos, c⟩, hplace⟩ : ∃ place, (Text.offsets 0 before.toList)[n]? = some place :=
    ⟨_, List.getElem?_eq_getElem hlt⟩
  have hpos := Text.offset_lt hplace
  rw [Text.byteLength_toList, Nat.zero_add] at hpos
  refine ⟨pos, hpos, fun after => ?_⟩
  rw [statements?_eq_scan, String.toList_append, List.append_assoc, scan_append_error h]
  simp only [Text.offsets_append, List.getElem?_append_left hlt, hplace, Option.map_some]

/-- After a text that stands in ordinary text, with a variable behind it. -/
theorem statements?_variable {vars : Lookup} {before name : String} {p : Place} {ss : List Words}
    {d : Draft} (hscan : scan vars before.toList (.text .bare) {} = .ok (ss, .text p, d))
    (hname : IsName name) {after : String}
    (hafter : ∀ c, after.toList.head? = some c → isNameChar c = false) :
    statements? (before ++ braced name ++ after) vars =
      (statements? (before ++ unbraced name ++ after) vars).mapError
        (Fault.movedBehind (before ++ unbraced name) 2) := by
  obtain ⟨c, cs, hrest, hc⟩ : ∃ c cs, after.toList ++ ['\n'] = c :: cs ∧ isNameChar c = false := by
    cases hchars : after.toList with
    | nil => exact ⟨'\n', [], rfl, by decide⟩
    | cons c cs => exact ⟨c, cs ++ ['\n'], rfl, hafter c (by rw [hchars]; rfl)⟩
  have hchars (front : String) : (front ++ after).toList ++ ['\n'] = front.toList ++ c :: cs := by
    rw [String.toList_append, List.append_assoc, hrest]
  have hsize (front : String) : some (front ++ after).utf8ByteSize =
      (some after.utf8ByteSize).map (front.utf8ByteSize + ·) :=
    congrArg some String.utf8ByteSize_append
  have hclean : d.statement = none := statement_scan rfl hscan
  have hunbraced := scan_append_ok hscan (scan_unbraced hname hclean)
  have hbraced := scan_append_ok hscan (scan_braced hname.isBracedName hclean)
  rw [← String.toList_append] at hunbraced hbraced
  rw [statements?_eq_scan, statements?_eq_scan, hchars, hchars, scan_append hunbraced,
    scan_append hbraced, scan_behind_name hname.ne_empty hc, hsize, hsize]
  rcases scan vars (c :: cs) (.text p) (d.addValue vars name) with ⟨cause, n⟩ | ⟨more, m, d'⟩
  · simp only [Text.offset_behind, Text.byteLength_toList, utf8ByteSize_braced, Except.mapError,
      Fault.movedBehind_behind]
  · dsimp only
    split_ifs
    · rfl
    · rw [Except.mapError, Fault.movedBehind_behind, utf8ByteSize_braced]

/-- **A variable with and without braces**, in ordinary text or between double quotes, and with
    nothing behind it that could go on with its name: the statements are the same, or the fault is
    the same, two bytes further behind with the braces if it is behind the variable.  Without the
    braces the whole name is taken, and what stands behind it is read as in the text around it. -/
theorem statements?_braced (vars : Lookup) (before name after : String) (p : Place)
    (hbefore : (Reader.feed vars before {}).2.run.state = .text p) (hname : IsName name)
    (hafter : ∀ c, after.toList.head? = some c → isNameChar c = false) :
    statements? (before ++ braced name ++ after) vars =
        (statements? (before ++ unbraced name ++ after) vars).mapError
          (Fault.movedBehind (before ++ unbraced name) 2) ∧
      (Reader.feed vars before {}).2.TakesName vars p name := by
  obtain ⟨ss, d, endedLine, hscan, hreader⟩ | ⟨⟨cause, n⟩, hscan, hreader⟩ :=
    Reader.feed_fresh_cases hbefore
  · refine ⟨statements?_variable hscan hname hafter, ?_⟩
    rw [hreader]
    exact Reader.takesName hname rfl (statement_scan rfl hscan) rfl rfl
  · -- a fault in front of the variable: nothing behind it is read, and the reader is new again
    constructor
    · obtain ⟨pos, hpos, hfault⟩ := statements?_of_scan_error hscan
      have hinside : pos < (before ++ unbraced name).utf8ByteSize := by
        rw [String.utf8ByteSize_append]
        omega
      rw [String.append_assoc, String.append_assoc, hfault, hfault, Except.mapError,
        Fault.movedBehind_inside cause 2 hinside]
    · rw [hreader] at hbefore ⊢
      exact Reader.takesName hname rfl rfl rfl hbefore

/-- Between double quotes, with a brace behind the variable, and an empty name further behind. -/
theorem statements?_braced_quoted :
    let vars : Lookup := fun name => if name = "A?" then some "1; 2" else none
    (Reader.feed vars "é \"" {}).2.run.state = .text .quoted ∧ IsName "A?" ∧
      (∀ c, "\x7b\"\n$\x7b\x7d".toList.head? = some c → isNameChar c = false) ∧
      statements? ("é \"" ++ unbraced "A?" ++ "\x7b\"\n$\x7b\x7d") vars =
        .error ⟨.emptySubstitution, some 12⟩ ∧
      statements? ("é \"" ++ braced "A?" ++ "\x7b\"\n$\x7b\x7d") vars =
        .error ⟨.emptySubstitution, some 14⟩ := by
  intro vars
  have hbefore : (Reader.feed vars "é \"" {}).2.run.state = .text .quoted := by rfl
  have hname : IsName "A?" := ⟨by decide, List.all_eq_true.1 rfl⟩
  have hafter : ∀ c, "\x7b\"\n$\x7b\x7d".toList.head? = some c → isNameChar c = false := by
    intro c hc
    obtain rfl : '{' = c := Option.some.inj hc
    rfl
  have hunbraced : statements? ("é \"" ++ unbraced "A?" ++ "\x7b\"\n$\x7b\x7d") vars =
      .error ⟨.emptySubstitution, some 12⟩ := by rfl
  have hbraced := (statements?_braced vars "é \"" "A?" "\x7b\"\n$\x7b\x7d" .quoted hbefore hname
    hafter).1
  rw [hunbraced] at hbraced
  exact ⟨hbefore, hname, hafter, hunbraced, hbraced⟩

end Statement

end NestedShell
