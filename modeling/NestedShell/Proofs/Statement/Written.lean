/-
  Written statements: every list of words can be written in several ways, and is read back.

  A word is written bare, between quotes, or with a backslash before every character, as far as its
  characters allow it.  Blanks stand between the words of a statement, and a terminator after it.

  * a `Style` is a way to write words, `Style.Admits` says which words it can write;
  * a `WrittenWord`, a `WrittenStatement` and a list of them are a choice of styles, blanks and
    terminators for some words;
  * `Copied`: a character is read as itself in the way in which it is written;
  * `statements?_written`: the statements that are read are the ones that are written.
-/
import NestedShell.Proofs.Statement.Reading

namespace NestedShell.Statement

/-! ## Styles -/

/-- The ways to write a word. -/
inductive Style where
  /-- as it is -/
  | bare
  /-- between single quotes -/
  | literal
  /-- between single quotes inside double quotes -/
  | nested
  /-- as `quote` writes it -/
  | quoted
  /-- with a backslash before every character -/
  | escaped
deriving DecidableEq, Repr

/-- The characters with a meaning in ordinary text. -/
def special : List Char := [' ', '\t', '\n', ';', '\\', '\'', '"', '$']

namespace Style

/-- The words that can be written in a style. -/
def Admits : Style → String → Prop
  | bare, w => w ≠ "" ∧ ∀ c ∈ w.toList, c ∉ special
  | literal, w | nested, w => '\'' ∉ w.toList
  | quoted, _ => True
  | escaped, w => w ≠ "" ∧ ∀ c ∈ w.toList, c ∉ ['n', 't', 'r', 'b', '\n']

/-- How a word is written in a style. -/
def write : Style → String → List Char
  | bare, w => w.toList
  | literal, w => '\'' :: w.toList ++ ['\'']
  | nested, w => '"' :: '\'' :: w.toList ++ ['\'', '"']
  | quoted, w => (quote w).toList
  | escaped, w => w.toList.flatMap fun c => ['\\', c]

end Style

/-- A word in a style that can write it. -/
structure WrittenWord where
  word : String
  style : Style
  admitted : style.Admits word

/-- The characters of a word as it is written. -/
def WrittenWord.text (w : WrittenWord) : List Char := w.style.write w.word

/-- The blanks between two words. -/
structure Gap where
  blanks : List Char
  ne_nil : blanks ≠ []
  blank : ∀ c ∈ blanks, c = ' ' ∨ c = '\t'

/-- What a statement ends with. -/
inductive Terminator where
  | semicolon | newline
deriving DecidableEq, Repr

/-- The character that ends a statement. -/
def Terminator.char : Terminator → Char
  | semicolon => ';'
  | newline => '\n'

/-- A statement with at least one word, and how it is written. -/
structure WrittenStatement where
  first : WrittenWord
  more : List (Gap × WrittenWord)
  terminator : Terminator

namespace WrittenStatement

/-- The words that a written statement stands for. -/
def words (s : WrittenStatement) : Words := s.first.word :: s.more.map (·.2.word)

/-- The characters of a statement as it is written. -/
def text (s : WrittenStatement) : List Char :=
  s.first.text ++ s.more.flatMap (fun m => m.1.blanks ++ m.2.text) ++ [s.terminator.char]

end WrittenStatement

/-- The text of some written statements. -/
def writtenText (script : List WrittenStatement) : String :=
  String.ofList (script.flatMap WrittenStatement.text)

/-! ## Characters -/

section
variable {vars : Lookup}

theorem scan_append_ok {u v : List Char} {m m' : Mode} {d d' : Draft} {ss ss' : List Words}
    {r : Mode × Draft} (h : scan vars u m d = .ok (ss, m', d'))
    (h' : scan vars v m' d' = .ok (ss', r)) :
    scan vars (u ++ v) m d = .ok (ss ++ ss', r) := by
  rw [scan_append h, h']

/-- Reading a character that ends no statement. -/
theorem scan_singleton {c : Char} {m m' : Mode} {d d' : Draft}
    (h : read vars m c d = .ok (m', d')) (hd : d'.statement = none) :
    scan vars [c] m d = .ok ([], m', d') := by
  obtain ⟨word, name, args, statement, joined⟩ := d'
  cases hd
  simp [scan, h]

/-- In this mode the character is read as itself, when it is written like this. -/
def Copied (vars : Lookup) (m : Mode) (c : Char) (written : List Char) : Prop :=
  ∀ d : Draft, d.statement = none → scan vars written m d = .ok ([], m, d.addChar c)

theorem Copied.bare {c : Char} (h : c ∉ special) : Copied vars (.text .bare) c [c] := by
  intro d hd
  simp only [special, List.mem_cons, List.not_mem_nil, or_false, not_or] at h
  refine scan_singleton ?_ hd
  simp [read, readText, h]

theorem Copied.literal {p : Place} {c : Char} (h : c ≠ '\'') :
    Copied vars (.literal p) c [c] := by
  intro d hd
  refine scan_singleton ?_ hd
  cases p <;> simp [read, h]

theorem Copied.quoted (c : Char) : Copied vars (.text .quoted) c (quoteChar c) := by
  intro d hd
  simp only [quoteChar, List.mem_cons, List.not_mem_nil, or_false]
  split
  · rename_i h
    have hescape : resolveEscape c = c ∧ c ≠ '\n' := by
      rcases h with rfl | rfl | rfl | rfl <;> decide
    refine scan_append_ok (u := ['\\']) (scan_singleton rfl hd) (scan_singleton ?_ hd)
    simp [read, hescape]
  · rename_i h
    simp only [not_or] at h
    refine scan_singleton ?_ hd
    simp [read, readText, h]

theorem Copied.escaped {c : Char} (h : c ∉ ['n', 't', 'r', 'b', '\n']) :
    Copied vars (.text .bare) c ['\\', c] := by
  intro d hd
  simp only [List.mem_cons, List.not_mem_nil, or_false, not_or] at h
  refine scan_append_ok (u := ['\\']) (scan_singleton rfl hd) (scan_singleton ?_ hd)
  simp [read, resolveEscape, h]

/-- Characters that are read as themselves are added to the word. -/
theorem scan_copied {m : Mode} {cs : List Char} {written : Char → List Char}
    (h : ∀ c ∈ cs, Copied vars m c (written c)) {d : Draft} (hd : d.statement = none) :
    scan vars (cs.flatMap written) m d =
      .ok ([], m, { d with word := d.word ++ String.ofList cs }) := by
  induction cs generalizing d with
  | nil => simp [scan]
  | cons c cs ih =>
    obtain ⟨hc, hcs⟩ := List.forall_mem_cons.1 h
    rw [List.flatMap_cons]
    have hrest := ih hcs (d := d.addChar c) hd
    have hword : d.word ++ String.ofList (c :: cs) = d.word.push c ++ String.ofList cs := by
      rw [← String.toList_inj]
      simp
    rw [hword]
    exact scan_append_ok (hc d hd) hrest

end

/-! ## Words -/

/-- The draft of a statement of which only complete words have been read. -/
def draftOf (args : Words) : Draft := { args }

/-- Bare and escaped words are left open. -/
theorem breakWord_open {w : String} (hw : w ≠ "") (args : Words) :
    ({ draftOf args with word := w } : Draft).breakWord = draftOf (args ++ [w]) := by
  rw [Draft.breakWord, if_neg hw]
  rfl

section
variable (vars : Lookup)

/-- The characters of a word, when each of them is read as itself. -/
theorem scan_chars {m : Mode} {w : String} {written : Char → List Char}
    (h : ∀ c ∈ w.toList, Copied vars m c (written c)) (args : Words) :
    scan vars (w.toList.flatMap written) m (draftOf args) =
      .ok ([], m, { draftOf args with word := w }) := by
  have hscan := scan_copied h (d := draftOf args) rfl
  simpa [draftOf] using hscan

/-- The same for characters that are written as they are. -/
theorem scan_plain {m : Mode} {w : String} (h : ∀ c ∈ w.toList, Copied vars m c [c])
    (args : Words) :
    scan vars w.toList m (draftOf args) = .ok ([], m, { draftOf args with word := w }) := by
  have hscan := scan_chars vars h args
  rwa [List.flatMap_singleton'] at hscan

/-- What `quote` leaves as it is can be written bare. -/
theorem not_mem_special {c : Char} (h : ¬ needsQuotes c = true) : c ∉ special := by
  intro hc
  simp only [special, List.mem_cons, List.not_mem_nil, or_false] at hc
  rcases hc with rfl | rfl | rfl | rfl | rfl | rfl | rfl | rfl <;> exact h (by decide)

/-- What `quote` writes is read up to its end, and goes on with the word that is being read. -/
theorem scan_quote (w : String) {d : Draft} (hd : d.statement = none) :
    ∃ d' : Draft, d'.breakWord = { d with word := "", args := d.args ++ [d.word ++ w] } ∧
      scan vars (quote w).toList (.text .bare) d = .ok ([], .text .bare, d') := by
  by_cases hq : w.toList = [] ∨ w.toList.any needsQuotes = true
  · have htext : (quote w).toList = ['"'] ++ w.toList.flatMap quoteChar ++ ['"'] := by
      rw [quote, if_pos hq, String.toList_ofList]
      rfl
    have hopen : scan vars ['"'] (.text .bare) d = .ok ([], .text .quoted, d) :=
      scan_singleton rfl hd
    have hcopied : ∀ c ∈ w.toList, Copied vars (.text .quoted) c (quoteChar c) :=
      fun c _ => .quoted c
    have hchars := scan_copied hcopied hd
    rw [String.ofList_toList] at hchars
    have hclose : scan vars ['"'] (.text .quoted) { d with word := d.word ++ w } =
        .ok ([], .text .bare, { d with word := "", args := d.args ++ [d.word ++ w] }) :=
      scan_singleton rfl hd
    refine ⟨{ d with word := "", args := d.args ++ [d.word ++ w] }, if_pos rfl, ?_⟩
    rw [htext]
    exact scan_append_ok (scan_append_ok hopen hchars) hclose
  · obtain ⟨hne, hplain⟩ := not_or.1 hq
    rw [List.any_eq_true] at hplain
    have hcopied : ∀ c ∈ w.toList, Copied vars (.text .bare) c [c] :=
      fun c hc => .bare (not_mem_special fun hn => hplain ⟨c, hc, hn⟩)
    have hchars := scan_copied hcopied hd
    rw [List.flatMap_singleton', String.ofList_toList] at hchars
    have hword : d.word ++ w ≠ "" := by
      intro hempty
      rw [(String.append_eq_empty_iff.1 hempty).2] at hne
      exact hne rfl
    refine ⟨_, ?_, by rw [quote, if_neg hq]; exact hchars⟩
    rw [Draft.breakWord, if_neg hword]
    rfl

/-- **A written word** is read up to its end. -/
theorem scan_word (w : WrittenWord) (args : Words) :
    ∃ d : Draft, d.breakWord = draftOf (args ++ [w.word]) ∧
      scan vars w.text (.text .bare) (draftOf args) = .ok ([], .text .bare, d) := by
  obtain ⟨w, style, h⟩ := w
  have hclosed : (draftOf (args ++ [w])).breakWord = draftOf (args ++ [w]) := rfl
  cases style with
  | bare => exact ⟨_, breakWord_open h.1 args, scan_plain vars (fun c hc => .bare (h.2 c hc)) args⟩
  | literal =>
    have hchars := scan_plain vars (w := w) (m := .literal .bare)
      (fun c hc => .literal fun hquote => h (hquote ▸ hc)) args
    have hopened := scan_append_ok (u := ['\'']) (m := .text .bare) (d := draftOf args) rfl hchars
    exact ⟨_, hclosed, scan_append_ok (v := ['\'']) hopened rfl⟩
  | nested =>
    have hchars := scan_plain vars (w := w) (m := .literal .quoted)
      (fun c hc => .literal fun hquote => h (hquote ▸ hc)) args
    have hopened := scan_append_ok (u := ['"', '\'']) (m := .text .bare) (d := draftOf args) rfl
      hchars
    exact ⟨_, hclosed, scan_append_ok (v := ['\'', '"']) hopened rfl⟩
  | quoted =>
    obtain ⟨d, hd, hscan⟩ := scan_quote vars w (d := draftOf args) rfl
    rw [show (draftOf args).word ++ w = w from String.empty_append] at hd
    exact ⟨d, hd, hscan⟩
  | escaped =>
    exact ⟨_, breakWord_open h.1 args, scan_chars vars (fun c hc => .escaped (h.2 c hc)) args⟩

/-! ## Statements -/

theorem scan_blanks {cs : List Char} (h : ∀ c ∈ cs, c = ' ' ∨ c = '\t') (args : Words) :
    scan vars cs (.text .bare) (draftOf args) = .ok ([], .text .bare, draftOf args) := by
  induction cs with
  | nil => rfl
  | cons c cs ih =>
    obtain ⟨hc, hcs⟩ := List.forall_mem_cons.1 h
    have hread : read vars (.text .bare) c (draftOf args) = .ok (.text .bare, draftOf args) := by
      rw [read, readText, if_pos hc]
      rfl
    exact scan_append_ok (u := [c]) (scan_singleton hread rfl) (ih hcs)

/-- The blanks after a word end it. -/
theorem scan_gap (g : Gap) {d : Draft} {args : Words} (h : d.breakWord = draftOf args) :
    scan vars g.blanks (.text .bare) d = .ok ([], .text .bare, draftOf args) := by
  obtain ⟨cs, hne, hblank⟩ := g
  cases cs with
  | nil => exact absurd rfl hne
  | cons c cs =>
    obtain ⟨hc, hcs⟩ := List.forall_mem_cons.1 hblank
    have hread : read vars (.text .bare) c d = .ok (.text .bare, draftOf args) := by
      rw [read, readText, if_pos hc, h]
    exact scan_append_ok (u := [c]) (scan_singleton hread rfl) (scan_blanks vars hcs args)

/-- A terminator ends the word before it and the statement. -/
theorem scan_terminator (t : Terminator) {d : Draft} {args : Words}
    (h : d.breakWord = draftOf args) :
    scan vars [t.char] (.text .bare) d =
      .ok (if args = [] then [] else [args], .text .bare, {}) := by
  have hread : read vars (.text .bare) t.char d =
      .ok (.text .bare, { statement := some args }) := by
    cases t <;> simp [Terminator.char, read, readText, Draft.closeStatement, h, draftOf]
  simp only [scan, hread]
  cases args <;> rfl

/-- The rest of a statement, after one of its words. -/
theorem scan_more (more : List (Gap × WrittenWord)) (t : Terminator) {d : Draft} {args : Words}
    (hargs : args ≠ []) (h : d.breakWord = draftOf args) :
    scan vars (more.flatMap (fun m => m.1.blanks ++ m.2.text) ++ [t.char]) (.text .bare) d =
      .ok ([args ++ more.map (·.2.word)], .text .bare, {}) := by
  induction more generalizing d args with
  | nil => simpa [hargs] using scan_terminator vars t h
  | cons m more ih =>
    obtain ⟨gap, w⟩ := m
    obtain ⟨d', hd', hword⟩ := scan_word vars w args
    have hrest := ih (List.append_ne_nil_of_right_ne_nil args (List.cons_ne_nil w.word [])) hd'
    have hscan := scan_append_ok (scan_append_ok (scan_gap vars gap h) hword) hrest
    simpa using hscan

/-- **A written statement** is read as its words. -/
theorem scan_statement (s : WrittenStatement) :
    scan vars s.text (.text .bare) {} = .ok ([s.words], .text .bare, {}) := by
  obtain ⟨d, hd, hword⟩ := scan_word vars s.first []
  have hmore := scan_more vars s.more s.terminator (List.cons_ne_nil _ _) hd
  have hscan := scan_append_ok hword hmore
  rwa [← List.append_assoc] at hscan

theorem scan_script (script : List WrittenStatement) :
    scan vars (script.flatMap WrittenStatement.text) (.text .bare) {} =
      .ok (script.map WrittenStatement.words, .text .bare, {}) := by
  induction script with
  | nil => rfl
  | cons s script ih => exact scan_append_ok (scan_statement vars s) ih

end

/-- A statement whose words are written with `quote`, with single spaces between them. -/
def WrittenStatement.spaced (first : String) (more : List String) : WrittenStatement where
  first := ⟨first, .quoted, trivial⟩
  more := more.map fun w => (⟨[' '], List.cons_ne_nil _ _, by simp⟩, ⟨w, .quoted, trivial⟩)
  terminator := .newline

theorem words_spaced (first : String) (more : List String) :
    (WrittenStatement.spaced first more).words = first :: more := by
  simp [WrittenStatement.words, WrittenStatement.spaced, Function.comp_def]

theorem text_spaced (first : String) (more : List String) :
    (WrittenStatement.spaced first more).text =
      (" ".intercalate ((first :: more).map quote)).toList ++ ['\n'] := by
  have hmore (w : String) (ws : List String) :
      (" ".intercalate (w :: ws)).toList = w.toList ++ ws.flatMap (' ' :: ·.toList) := by
    induction ws generalizing w with
    | nil => simp
    | cons v ws ih => simp [String.intercalate_cons_cons, ih]
  rw [List.map_cons, hmore, List.flatMap_map]
  simp [WrittenStatement.text, WrittenStatement.spaced, WrittenWord.text, Style.write,
    List.flatMap_map, Terminator.char]

/-- Every list of statements with words can be written. -/
theorem exists_written (statements : List Words) (h : ∀ ws ∈ statements, ws ≠ []) :
    ∃ script : List WrittenStatement, script.map WrittenStatement.words = statements := by
  induction statements with
  | nil => exact ⟨[], rfl⟩
  | cons ws statements ih =>
    obtain ⟨hws, hrest⟩ := List.forall_mem_cons.1 h
    obtain ⟨script, rfl⟩ := ih hrest
    obtain ⟨w, more, rfl⟩ := List.exists_cons_of_ne_nil hws
    exact ⟨.spaced w more :: script, by rw [List.map_cons, words_spaced]⟩

/-- **Words that are quoted one by one** are read back, with spaces between them. -/
theorem words?_quoted (ws : Words) : words? (" ".intercalate (ws.map quote)) = .ok ws := by
  cases ws with
  | nil => rfl
  | cons w ws =>
    have hscan := scan_statement noVariables (.spaced w ws)
    rw [words_spaced, text_spaced] at hscan
    rw [words?, oneStatement?, statements?_eq_ok hscan rfl]

/-- **Written statements read back**, in every style, with all blanks and terminators, and whatever
    the variables are. -/
theorem statements?_written (script : List WrittenStatement) (vars : Lookup) :
    statements? (writtenText script) vars = .ok (script.map WrittenStatement.words) := by
  have hscript := scan_script vars script
  have hend := scan_terminator vars .newline (show ({} : Draft).breakWord = draftOf [] from rfl)
  have hscan := scan_append_ok hscript hend
  rw [writtenText]
  refine statements?_eq_ok ?_ (d := {}) rfl
  rw [String.toList_ofList]
  simpa [Terminator.char] using hscan

end NestedShell.Statement
