/-
  References to variables, between double quotes.

  A reference to a variable is read as its value iff its name can be written like this: in braces
  every name without a closing brace and a newline, and without braces only letters, digits,
  underscores and question marks.  Any other name is cut short, and then the variable is not looked
  up at all: every name that is read is shorter.

  * `reference` writes a variable, `Referable` are the names that it can hold;
  * `oneStatement?_reference`: the reference to such a name is read as the value;
  * `AgreeBelow`: two lookups agree on shorter names; `scan_agree`: and so a short enough text is
    read alike; `oneStatement?_unread`: any other reference does not see the variable;
  * `reads_iff`: what is read is the value, whatever it is, iff the name can be written.
-/
import NestedShell.Proofs.Statement.Modes
import NestedShell.Proofs.Statement.Variables

namespace NestedShell.Statement

/-! ## References -/

/-- A reference to a variable, with braces or without. -/
def reference : Bool → String → String
  | true, name => braced name
  | false, name => unbraced name

/-- The names that a reference can hold. -/
def Referable : Bool → String → Prop
  | true, name => IsBracedName name
  | false, name => IsName name

/-- A text between double quotes. -/
def inQuotes (text : String) : String := "\"" ++ text ++ "\""

theorem toList_inQuotes (text : String) :
    (inQuotes text).toList ++ ['\n'] = '"' :: (text.toList ++ ['"', '\n']) := by
  simp [inQuotes]

section
variable {vars : Lookup} {name : String}

/-- Behind the closing quote, a line with one word has been read. -/
theorem scan_closeQuote (word : String) :
    scan vars ['"', '\n'] (.text .quoted) { word } = .ok ([[word]], .text .bare, {}) := rfl

/-- **A reference** between double quotes is read as one word, the value of the variable. -/
theorem oneStatement?_reference {braces : Bool} (h : Referable braces name) :
    oneStatement? (inQuotes (reference braces name)) vars = .ok [(vars name).getD ""] := by
  have hopen : scan vars ['"'] (.text .bare) {} = .ok ([], .text .quoted, {}) := rfl
  have hvalue : scan vars ['"', '\n'] (.text .quoted) (({} : Draft).addValue vars name) =
      .ok ([[(vars name).getD ""]], .text .bare, {}) := by
    rw [← scan_closeQuote, Draft.addValue, String.empty_append]
  have hscan : scan vars ((inQuotes (reference braces name)).toList ++ ['\n']) (.text .bare) {} =
      .ok ([[(vars name).getD ""]], .text .bare, {}) := by
    rw [toList_inQuotes]
    cases braces with
    | true => exact scan_append_ok hopen (scan_append_ok (scan_braced h rfl) hvalue)
    | false =>
      have hquote : isNameChar '"' = false := by decide
      rw [← scan_behind_name (IsName.ne_empty h) hquote] at hvalue
      exact scan_append_ok hopen (scan_append_ok (scan_unbraced h rfl) hvalue)
  rw [oneStatement?, statements?_eq_ok hscan rfl]

end

/-! ## Names that are not looked up -/

/-- Lookups that agree on the names shorter than `n`. -/
def AgreeBelow (n : Nat) (vars vars' : Lookup) : Prop :=
  ∀ name, name ≠ "" → name.length < n → vars name = vars' name

section
variable {n : Nat} {vars vars' : Lookup}

/-- A character is read alike if the name that it may end is. -/
theorem read_agree (hvars : AgreeBelow n vars vars') {d : Draft} (hname : d.name.length < n)
    (m : Mode) (c : Char) : read vars m c d = read vars' m c d := by
  have hvalue : d.substitute vars = d.substitute vars' := by
    rw [Draft.substitute, Draft.substitute]
    split
    · rfl
    · rename_i hne
      rw [hvars _ hne hname]
  cases m with
  | text p | escape p => rfl
  | literal p => cases p <;> rfl
  | dollar p | name p | braced p => simp only [read, hvalue]

theorem length_name_readText (p : Place) (c : Char) (d : Draft) :
    (readText p c d).2.name.length ≤ d.name.length := by
  cases p <;>
  · simp only [readText]
    split_ifs <;> simp [Draft.closeStatement, Draft.closeWord, Draft.openName, Draft.addChar,
      name_breakWord]

/-- A character makes the name longer by one character at most. -/
theorem length_name_read {m m' : Mode} {c : Char} {d d' : Draft}
    (h : read vars m c d = .ok (m', d')) : d'.name.length ≤ d.name.length + 1 := by
  have htext (p : Place) (e : Draft) (he : e.name.length ≤ d.name.length)
      (hread : readText p c e = (m', d')) : d'.name.length ≤ d.name.length + 1 := by
    have hlength := length_name_readText p c e
    rw [hread] at hlength
    exact Nat.le_succ_of_le (Nat.le_trans hlength he)
  have hvalue : (d.substitute vars).name.length ≤ d.name.length := by
    rw [name_substitute]
    exact Nat.zero_le _
  have hpush : (d.addNameChar c).name.length = d.name.length + 1 := String.length_push ..
  cases m with
  | text p => exact htext p d (Nat.le_refl _) (Except.ok.inj h)
  | escape p =>
    cases h
    split <;> exact Nat.le_succ _
  | literal p =>
    cases p <;>
    · simp only [read] at h
      split at h <;> cases h <;> exact Nat.le_succ _
  | dollar p | name p =>
    simp only [read, Except.ok.injEq] at h
    split_ifs at h
    all_goals first
      | exact htext p _ hvalue h
      | cases h; exact Nat.le_succ _
      | cases h; exact Nat.le_of_eq hpush
  | braced p =>
    simp only [read] at h
    split_ifs at h <;> cases h
    · exact Nat.le_succ_of_le hvalue
    · exact Nat.le_of_eq hpush

/-- **A text that is too short** to make a name of that length is read alike. -/
theorem scan_agree (hvars : AgreeBelow n vars vars') {cs : List Char} {m : Mode} {d : Draft}
    (hlength : d.name.length + cs.length ≤ n) : scan vars cs m d = scan vars' cs m d := by
  induction cs generalizing m d with
  | nil => rfl
  | cons c cs ih =>
    rw [List.length_cons] at hlength
    rw [scan, scan, ← read_agree hvars (by omega) m c]
    cases hread : read vars m c d with
    | error cause => rfl
    | ok next =>
      obtain ⟨m', d'⟩ := next
      have hname := length_name_read hread
      simp only [ih (m := m') (d := { d' with statement := none }) (by simp only; omega)]

/-- Behind a double quote no name is open that the end of the line could end. -/
theorem read_line_end (vars vars' : Lookup) (m : Mode) (d : Draft) :
    read vars (m.next '"') '\n' d = read vars' (m.next '"') '\n' d := by
  rcases m with p | p | p | p | p | p <;> cases p <;> rfl

/-- A text up to a double quote and the end of the line. -/
theorem scan_agree_line (hvars : AgreeBelow n vars vars') {cs : List Char} {m : Mode} {d : Draft}
    (hlength : d.name.length + cs.length < n) :
    scan vars (cs ++ ['"', '\n']) m d = scan vars' (cs ++ ['"', '\n']) m d := by
  have hquote : scan vars (cs ++ ['"']) m d = scan vars' (cs ++ ['"']) m d :=
    scan_agree hvars (by simp only [List.length_append, List.length_singleton]; omega)
  have hline : cs ++ ['"', '\n'] = cs ++ ['"'] ++ ['\n'] := by simp
  rw [hline]
  cases hscan : scan vars (cs ++ ['"']) m d with
  | error e => rw [scan_append_error hscan, scan_append_error (hquote.symm.trans hscan)]
  | ok result =>
    obtain ⟨ss, m', d'⟩ := result
    obtain ⟨_, m₁, d₁, d₂, -, hread, rfl, -⟩ := scan_concat_eq_ok.1 hscan
    obtain rfl := mode_read hread
    rw [scan_append hscan, scan_append (hquote.symm.trans hscan), scan, scan,
      read_line_end vars vars' m₁]
    rfl

/-- Where a character ends the name, all that is left must be too short. -/
theorem scan_agree_behind (hvars : AgreeBelow n vars vars') {m : Mode} {c : Char} {cs : List Char}
    {d : Draft} (hname : d.name.length < n)
    (hnext : ∀ m' d', read vars m c d = .ok (m', d') → d'.name = "" ∧ cs.length < n) :
    scan vars (c :: cs ++ ['"', '\n']) m d = scan vars' (c :: cs ++ ['"', '\n']) m d := by
  rw [List.cons_append, scan, scan, ← read_agree hvars hname m c]
  cases hread : read vars m c d with
  | error cause => rfl
  | ok next =>
    obtain ⟨m', d'⟩ := next
    obtain ⟨hempty, hcs⟩ := hnext m' d' hread
    have hrest : scan vars (cs ++ ['"', '\n']) m' { d' with statement := none } =
        scan vars' (cs ++ ['"', '\n']) m' { d' with statement := none } :=
      scan_agree_line hvars (by simpa [hempty] using hcs)
    simp only [hrest]

end

/-! ## Names that cannot be written -/

/-- The first element that a property does not hold of. -/
theorem exists_first {α : Type} {p : α → Bool} {xs : List α} (h : ¬ ∀ x ∈ xs, p x = true) :
    ∃ us x vs, xs = us ++ x :: vs ∧ (∀ u ∈ us, p u = true) ∧ p x = false := by
  obtain ⟨x, hx⟩ : ∃ x, xs.find? (!p ·) = some x := by
    rw [← Option.isSome_iff_exists, List.find?_isSome]
    simpa using h
  obtain ⟨hpx, us, vs, rfl, hus⟩ := List.find?_eq_some_iff_append.1 hx
  exact ⟨us, x, vs, rfl, by simpa using hus, by simpa using hpx⟩

section
variable {vars vars' : Lookup} {name : String}

/-- The characters of a name without braces, up to one that cannot stand in it. -/
theorem scan_openName {p : Place} {us : List Char} (h : ∀ c ∈ us, isNameChar c = true) :
    ∃ m, (m = .dollar p ∧ us = [] ∨ m = .name p) ∧ ∀ vars,
      scan vars ('$' :: us) (.text p) {} = .ok ([], m, { name := String.ofList us }) := by
  cases us with
  | nil =>
    have hopen (vars : Lookup) := scan_singleton (read_dollar vars p {}) rfl
    exact ⟨.dollar p, .inl ⟨rfl, rfl⟩, hopen⟩
  | cons c cs =>
    have hname : IsName (String.ofList (c :: cs)) := ⟨by simp, by simpa using h⟩
    refine ⟨.name p, .inr rfl, fun vars => ?_⟩
    have hscan : scan vars (unbraced (String.ofList (c :: cs))).toList (.text p) {} =
        .ok ([], .name p, { name := String.ofList (c :: cs) }) := scan_unbraced hname rfl
    rwa [unbraced, String.toList_ofList, String.toList_ofList] at hscan

/-- A character that cannot stand in a name ends it, or it opens a brace in front of one. -/
theorem name_ended {p : Place} {m m' : Mode} {c : Char} {d d' : Draft}
    (hm : m = .dollar p ∧ d.name = "" ∨ m = .name p) (hc : isNameChar c = false)
    (h : read vars m c d = .ok (m', d')) : d'.name = "" := by
  have hvalue := name_substitute vars d
  rcases hm with ⟨rfl, hd⟩ | rfl
  · simp only [read, hc, Except.ok.injEq, Bool.false_eq_true, if_false] at h
    split_ifs at h
    · cases h
      exact hd
    · exact name_readText h hvalue
  · simp only [read, hc, Except.ok.injEq, Bool.false_eq_true, if_false] at h
    exact name_readText h hvalue

/-- Without braces, a name is cut in front of the first character that cannot stand in it. -/
theorem scan_unread_unbraced (h : ¬ IsName name) (hne : name ≠ "")
    (hvars : AgreeBelow name.length vars vars') :
    scan vars ((unbraced name).toList ++ ['"', '\n']) (.text .quoted) {} =
      scan vars' ((unbraced name).toList ++ ['"', '\n']) (.text .quoted) {} := by
  obtain ⟨us, c, vs, hname, hus, hc⟩ :=
    exists_first (p := isNameChar) fun hall => h ⟨hne, hall⟩
  have hlength : name.length = us.length + (vs.length + 1) := by
    rw [← String.length_toList, hname, List.length_append, List.length_cons]
  obtain ⟨m, hm, hopen⟩ := scan_openName (p := .quoted) hus
  have hended : m = .dollar .quoted ∧ String.ofList us = "" ∨ m = .name .quoted :=
    hm.imp_left fun ⟨hm, hnil⟩ => ⟨hm, by rw [hnil]⟩
  have hrest : scan vars (c :: vs ++ ['"', '\n']) m { name := String.ofList us } =
      scan vars' (c :: vs ++ ['"', '\n']) m { name := String.ofList us } := by
    refine scan_agree_behind hvars ?_ fun m' d' hread => ⟨name_ended hended hc hread, by omega⟩
    rw [String.length_ofList]
    omega
  have hchars : (unbraced name).toList ++ ['"', '\n'] =
      '$' :: us ++ (c :: vs ++ ['"', '\n']) := by simp [unbraced, hname]
  rw [hchars, scan_append (hopen vars), scan_append (hopen vars'), hrest]

/-- In braces, a name is cut at the first closing one, and refused at a newline. -/
theorem scan_unread_braced (h : ¬ IsBracedName name) (hne : name ≠ "")
    (hvars : AgreeBelow name.length vars vars') :
    scan vars ((braced name).toList ++ ['"', '\n']) (.text .quoted) {} =
      scan vars' ((braced name).toList ++ ['"', '\n']) (.text .quoted) {} := by
  obtain ⟨us, c, vs, hname, hus, hc⟩ :=
    exists_first (p := fun c => c ≠ '}' ∧ c ≠ '\n') fun hall =>
      h ⟨hne, fun c hc => by simpa using hall c hc⟩
  have hlength : name.length = us.length + (vs.length + 1) := by
    rw [← String.length_toList, hname, List.length_append, List.length_cons]
  have hopen (vars : Lookup) : scan vars ('$' :: '{' :: us) (.text .quoted) {} =
      .ok ([], .braced .quoted, { name := String.ofList us }) :=
    scan_openBrace (fun c hc => by simpa using hus c hc) rfl
  have hrest : scan vars (c :: (vs ++ ['}']) ++ ['"', '\n']) (.braced .quoted)
        { name := String.ofList us } =
      scan vars' (c :: (vs ++ ['}']) ++ ['"', '\n']) (.braced .quoted)
        { name := String.ofList us } := by
    refine scan_agree_behind hvars ?_ fun m' d' hread => ?_
    · rw [String.length_ofList]
      omega
    · -- the character is a closing brace, and the name in front of it is not empty
      simp only [read] at hread
      split_ifs at hread with hclose hempty hline
      · cases hread
        have hus : us.length ≠ 0 := by simpa using hempty
        refine ⟨name_substitute .., ?_⟩
        rw [List.length_append, List.length_singleton]
        omega
      · simp [hclose, hline] at hc
  have hchars : (braced name).toList ++ ['"', '\n'] =
      '$' :: '{' :: us ++ (c :: (vs ++ ['}']) ++ ['"', '\n']) := by simp [braced, hname]
  rw [hchars, scan_append (hopen vars), scan_append (hopen vars'), hrest]

/-- **Any other reference** does not see the variable: what is read, or refused, does not depend on
    its value. -/
theorem oneStatement?_unread {braces : Bool} (h : ¬ Referable braces name)
    (hvars : ∀ other, other ≠ name → vars other = vars' other) :
    oneStatement? (inQuotes (reference braces name)) vars =
      oneStatement? (inQuotes (reference braces name)) vars' := by
  by_cases hne : name = ""
  · subst hne
    cases braces <;> rfl
  · have hbelow : AgreeBelow name.length vars vars' := by
      intro other _ hlength
      refine hvars other ?_
      rintro rfl
      exact Nat.lt_irrefl _ hlength
    have hopen (vars : Lookup) :
        scan vars ['"'] (.text .bare) {} = .ok ([], .text .quoted, {}) := rfl
    have hrest : scan vars ((reference braces name).toList ++ ['"', '\n']) (.text .quoted) {} =
        scan vars' ((reference braces name).toList ++ ['"', '\n']) (.text .quoted) {} := by
      cases braces with
      | true => exact scan_unread_braced h hne hbelow
      | false => exact scan_unread_unbraced h hne hbelow
    have hscan : scan vars ((inQuotes (reference braces name)).toList ++ ['\n']) (.text .bare) {} =
        scan vars' ((inQuotes (reference braces name)).toList ++ ['\n']) (.text .bare) {} := by
      rw [toList_inQuotes, ← List.singleton_append, scan_append (hopen vars),
        scan_append (hopen vars'), hrest]
    rw [oneStatement?, oneStatement?, statements?_eq_scan, statements?_eq_scan, hscan]

end

/-- **A reference reads its variable**, whatever the value, iff the name can be written in it. -/
theorem reads_iff {braces : Bool} {name : String} (env : Environment) :
    (∀ value, oneStatement? (inQuotes (reference braces name)) (env.set name value).lookup =
      .ok [value]) ↔ Referable braces name := by
  constructor
  · intro hreads
    refine Classical.byContradiction fun hname => ?_
    have hsame : oneStatement? (inQuotes (reference braces name)) (env.set name "0").lookup =
        oneStatement? (inQuotes (reference braces name)) (env.set name "1").lookup := by
      refine oneStatement?_unread hname fun other hother => ?_
      rw [Environment.lookup, Environment.lookup, Environment.get?_set, Environment.get?_set,
        if_neg hother.symm, if_neg hother.symm]
    rw [hreads, hreads] at hsame
    simp at hsame
  · intro hname value
    rw [oneStatement?_reference hname, Environment.lookup, Environment.get?_set, if_pos rfl]
    rfl

end NestedShell.Statement
