/-
  Outlines: texts that are read before the values of the variables are known.

  What is read next never depends on a value, so a text can be read once, with the names of the
  variables in place of their values.  The values are filled in afterwards, verbatim; they are not
  read as syntax.

  * a `WordOutline` is a word with variables in it, `wordsOf` and `statementsOf` fill in values:
    a word that was ended by a blank or a terminator is dropped when it comes out empty, and so is
    a statement without words;
  * an `Edit` is what reading does to a draft; `edits`: which edits a character leads to, and which
    mode, is told by the mode, the character and the name that is being read;
  * a `Sketch` is a draft with outlines for words, `draft_edit`: filling in values and editing can
    be exchanged; `scan_draft`: and so can filling in values and reading a text;
  * `statements?_outline`: the statements of a text are its outline, filled in.
-/
import NestedShell.Proofs.Statement.Reading

namespace NestedShell.Statement

/-! ## Outlines -/

/-- A part of a word: a character, or the value of a variable that is not known yet. -/
inductive Part where
  | char (c : Char)
  /-- the value of a variable -/
  | value (name : String)
deriving DecidableEq, Repr

/-- What ended a word. -/
inductive Ending where
  /-- a closing quote -/
  | quote
  /-- a blank, or the end of the statement -/
  | gap
deriving DecidableEq, Repr

/-- A word with variables in it. -/
structure WordOutline where
  parts : List Part
  ending : Ending
deriving DecidableEq, Repr

/-- A part as a text; a variable that is not set adds nothing. -/
def Part.text (vars : Lookup) : Part → String
  | char c => String.singleton c
  | value name => (vars name).getD ""

/-- The text of a word, when the variables are known. -/
def textOf (vars : Lookup) (parts : List Part) : String :=
  String.join (parts.map (·.text vars))

/-- The word that an outline stands for, if it is not dropped. -/
def WordOutline.word? (vars : Lookup) (w : WordOutline) : Option String :=
  match w.ending with
  | .quote => some (textOf vars w.parts)
  | .gap => if textOf vars w.parts = "" then none else some (textOf vars w.parts)

/-- The words of a statement, when the variables are known. -/
def wordsOf (vars : Lookup) (ws : List WordOutline) : Words := ws.filterMap (·.word? vars)

/-- The statements that outlines stand for. -/
def statementsOf (vars : Lookup) (ss : List (List WordOutline)) : List Words :=
  (ss.map (wordsOf vars)).filter (!·.isEmpty)

theorem textOf_char (vars : Lookup) (ps : List Part) (c : Char) :
    textOf vars (ps ++ [.char c]) = (textOf vars ps).push c := by
  simp [textOf, Part.text]

theorem textOf_value (vars : Lookup) (ps : List Part) (name : String) :
    textOf vars (ps ++ [.value name]) = textOf vars ps ++ (vars name).getD "" := by
  simp [textOf, Part.text]

theorem wordsOf_append (vars : Lookup) (ws vs : List WordOutline) :
    wordsOf vars (ws ++ vs) = wordsOf vars ws ++ wordsOf vars vs :=
  List.filterMap_append

theorem wordsOf_gap (vars : Lookup) (ps : List Part) :
    wordsOf vars [⟨ps, .gap⟩] = if textOf vars ps = "" then [] else [textOf vars ps] := by
  simp only [wordsOf, List.filterMap_cons, WordOutline.word?]
  split_ifs <;> rfl

/-! ## Edits -/

/-- What reading does to a draft. -/
inductive Edit where
  | addChar (c : Char)
  | closeWord
  | breakWord
  | closeStatement
  | openName
  | addNameChar (c : Char)
  | substitute
  | joinLine
deriving DecidableEq, Repr

/-- Does an edit to a draft. -/
def Draft.edit (vars : Lookup) (d : Draft) : Edit → Draft
  | .addChar c => d.addChar c
  | .closeWord => d.closeWord
  | .breakWord => d.breakWord
  | .closeStatement => d.closeStatement
  | .openName => d.openName
  | .addNameChar c => d.addNameChar c
  | .substitute => d.substitute vars
  | .joinLine => { d with joined := true }

/-- What a character of ordinary text leads to. -/
def textEdits : Place → Char → Mode × List Edit
  | .bare, c =>
    if c = ' ' ∨ c = '\t' then (.text .bare, [.breakWord])
    else if c = ';' ∨ c = '\n' then (.text .bare, [.closeStatement])
    else if c = '\\' then (.escape .bare, [])
    else if c = '\'' then (.literal .bare, [])
    else if c = '"' then (.text .quoted, [])
    else if c = '$' then (.dollar .bare, [.openName])
    else (.text .bare, [.addChar c])
  | .quoted, c =>
    if c = '"' then (.text .bare, [.closeWord])
    else if c = '\\' then (.escape .quoted, [])
    else if c = '\'' then (.literal .quoted, [])
    else if c = '$' then (.dollar .quoted, [.openName])
    else (.text .quoted, [.addChar c])

/-- What the character after an unbraced name leads to. -/
def endEdits (p : Place) (c : Char) : Mode × List Edit :=
  ((textEdits p c).1, .substitute :: (textEdits p c).2)

/-- What a character leads to, in a mode, after the start of a name. -/
def edits : Mode → Char → String → Except Cause (Mode × List Edit)
  | .text p, c, _ => .ok (textEdits p c)
  | .escape p, c, _ =>
    .ok (.text p, [if c = '\n' then .joinLine else .addChar (resolveEscape c)])
  | .literal .bare, c, _ =>
    .ok (if c = '\'' then (.text .bare, [.closeWord]) else (.literal .bare, [.addChar c]))
  | .literal .quoted, c, _ =>
    .ok (if c = '\'' then (.text .quoted, []) else (.literal .quoted, [.addChar c]))
  | .dollar p, c, _ =>
    .ok (if c = '{' then (.braced p, [])
      else if isNameChar c then (.name p, [.addNameChar c])
      else endEdits p c)
  | .name p, c, _ => .ok (if isNameChar c then (.name p, [.addNameChar c]) else endEdits p c)
  | .braced p, c, name =>
    if c = '}' then
      if name = "" then .error .emptySubstitution else .ok (.text p, [.substitute])
    else if c = '\n' then .error (.unterminatedName name)
    else .ok (.braced p, [.addNameChar c])

theorem readText_eq_edits (vars : Lookup) (p : Place) (c : Char) (d : Draft) :
    readText p c d = ((textEdits p c).1, (textEdits p c).2.foldl (Draft.edit vars) d) := by
  cases p <;>
  · simp only [readText, textEdits]
    split_ifs <;> rfl

/-- **Reading is editing**, and which edits are done does not depend on the values of variables. -/
theorem read_eq_edits (vars : Lookup) (m : Mode) (c : Char) (d : Draft) :
    read vars m c d =
      (edits m c d.name).map fun r => (r.1, r.2.foldl (Draft.edit vars) d) := by
  have hend (p : Place) : readText p c (d.substitute vars) =
      ((endEdits p c).1, (endEdits p c).2.foldl (Draft.edit vars) d) :=
    readText_eq_edits vars p c (d.substitute vars)
  cases m with
  | text p => exact congrArg Except.ok (readText_eq_edits vars p c d)
  | escape p =>
    simp only [read, edits]
    split_ifs <;> rfl
  | literal p =>
    cases p <;>
    · simp only [read, edits]
      split_ifs <;> rfl
  | dollar p | name p =>
    simp only [read, edits, hend]
    split_ifs <;> rfl
  | braced p =>
    simp only [read, edits]
    split_ifs <;> rfl

/-! ## Sketches -/

/-- A statement under construction, with outlines for words. -/
structure Sketch where
  word : List Part := []
  name : String := ""
  args : List WordOutline := []
  statement : Option (List WordOutline) := none
  joined : Bool := false
deriving DecidableEq, Repr

namespace Sketch

/-- Ends the word, because of this. -/
def closeWord (ending : Ending) (s : Sketch) : Sketch :=
  { s with word := [], args := s.args ++ [⟨s.word, ending⟩] }

/-- Ends the word if it has begun. -/
def breakWord (s : Sketch) : Sketch := if s.word = [] then s else s.closeWord .gap

/-- Does an edit to a sketch, which leaves variables open. -/
def edit (s : Sketch) : Edit → Sketch
  | .addChar c => { s with word := s.word ++ [.char c] }
  | .closeWord => s.closeWord .quote
  | .breakWord => s.breakWord
  | .closeStatement =>
    { s.breakWord with statement := some s.breakWord.args, args := [], joined := false }
  | .openName => { s with name := "" }
  | .addNameChar c => { s with name := s.name.push c }
  | .substitute =>
    if s.name = "" then s else { s with name := "", word := s.word ++ [.value s.name] }
  | .joinLine => { s with joined := true }

/-- The draft of a sketch: the values are filled in. -/
def draft (vars : Lookup) (s : Sketch) : Draft where
  word := textOf vars s.word
  name := s.name
  args := wordsOf vars s.args
  statement := s.statement.map (wordsOf vars)
  joined := s.joined

/-- Reads a character into a sketch. -/
def read (m : Mode) (c : Char) (s : Sketch) : Except Cause (Mode × Sketch) :=
  (edits m c s.name).map fun r => (r.1, r.2.foldl edit s)

variable (vars : Lookup) (s : Sketch)

theorem draft_closeWord : (s.closeWord .quote).draft vars = (s.draft vars).closeWord := by
  simp only [closeWord, draft, Draft.closeWord, wordsOf_append]
  rfl

theorem draft_breakWord : s.breakWord.draft vars = (s.draft vars).breakWord := by
  rw [breakWord, Draft.breakWord]
  split_ifs with hparts hword hword
  · rfl
  · exact absurd (congrArg (textOf vars) hparts) hword
  · -- the word comes out empty: here it is dropped, there it has not begun
    have htext : textOf vars s.word = "" := hword
    simp only [closeWord, draft, wordsOf_append, wordsOf_gap, htext, if_true, List.append_nil]
    rfl
  · have htext : textOf vars s.word ≠ "" := hword
    simp only [closeWord, draft, Draft.closeWord, wordsOf_append, wordsOf_gap, htext, if_false]
    rfl

/-- **Filling in values and editing** can be exchanged. -/
theorem draft_edit (e : Edit) : (s.edit e).draft vars = (s.draft vars).edit vars e := by
  cases e with
  | addChar c =>
    simp only [edit, draft, textOf_char]
    rfl
  | closeWord => exact draft_closeWord vars s
  | breakWord => exact draft_breakWord vars s
  | closeStatement =>
    rw [edit, Draft.edit, Draft.closeStatement, ← draft_breakWord]
    rfl
  | openName | addNameChar | joinLine => rfl
  | substitute =>
    rw [edit, Draft.edit, Draft.substitute, show (s.draft vars).name = s.name from rfl]
    split_ifs
    · rfl
    · simp only [draft, textOf_value]

theorem draft_edits (es : List Edit) :
    (es.foldl edit s).draft vars = es.foldl (Draft.edit vars) (s.draft vars) := by
  induction es generalizing s with
  | nil => rfl
  | cons e es ih => rw [List.foldl_cons, List.foldl_cons, ih, draft_edit]

/-- **Filling in values and reading a character** can be exchanged. -/
theorem read_draft (m : Mode) (c : Char) :
    Statement.read vars m c (s.draft vars) =
      (s.read m c).map fun r => (r.1, r.2.draft vars) := by
  rw [read_eq_edits, read, show (s.draft vars).name = s.name from rfl]
  cases edits m c s.name with
  | error cause => rfl
  | ok r => simp only [Except.map, draft_edits]

end Sketch

/-! ## Texts -/

/-- Reads a text into outlines of its statements. -/
def sketch : List Char → Mode → Sketch →
    Except (Cause × Nat) (List (List WordOutline) × Mode × Sketch)
  | [], m, s => .ok ([], m, s)
  | c :: cs, m, s =>
    match s.read m c with
    | .error cause => .error (cause, 0)
    | .ok (m', s') =>
      match sketch cs m' { s' with statement := none } with
      | .ok (statements, r) => .ok (s'.statement.toList ++ statements, r)
      | .error (cause, n) => .error (cause, n + 1)

/-- **Filling in values and reading a text** can be exchanged. -/
theorem scan_draft (vars : Lookup) (cs : List Char) (m : Mode) (s : Sketch) :
    scan vars cs m (s.draft vars) =
      (sketch cs m s).map fun r => (statementsOf vars r.1, r.2.1, r.2.2.draft vars) := by
  induction cs generalizing m s with
  | nil => rfl
  | cons c cs ih =>
    rw [scan, sketch, Sketch.read_draft]
    rcases s.read m c with cause | ⟨m', s'⟩
    · rfl
    · have hrest := ih m' { s' with statement := none }
      have hdraft : ({ s'.draft vars with statement := none } : Draft) =
          Sketch.draft vars { s' with statement := none } := rfl
      simp only [Except.map] at hrest ⊢
      rw [hdraft, hrest]
      rcases sketch cs m' { s' with statement := none } with ⟨cause, n⟩ | ⟨statements, r⟩
      · rfl
      · have hstatement : ((s'.draft vars).statement.filter (!·.isEmpty)).toList =
            statementsOf vars s'.statement.toList := by
          simp only [Sketch.draft, statementsOf]
          cases s'.statement with
          | none => rfl
          | some ws =>
            simp only [Option.map_some, Option.toList_some, List.map_cons, List.map_nil]
            by_cases hws : (wordsOf vars ws).isEmpty <;> simp [Option.filter, hws]
        simp only [hstatement, statementsOf, List.map_append, List.filter_append]

/-- The outline of a text that leaves nothing open, or why it has none. -/
def outline? (text : String) : Except Fault (List (List WordOutline)) :=
  match sketch (text.toList ++ ['\n']) (.text .bare) {} with
  | .error (cause, n) =>
    .error ⟨cause, (Text.offsets 0 (text.toList ++ ['\n']))[n]?.map (·.1)⟩
  | .ok (statements, m, s) =>
    if m = .text .bare ∧ s.joined = false then .ok statements
    else .error ⟨.unfinished (({} : Reader).withState m {}).openConstruct, some text.utf8ByteSize⟩

theorem statements?_eq_outline (vars : Lookup) (text : String) :
    statements? text vars = (outline? text).map (statementsOf vars) := by
  have hscan := scan_draft vars (text.toList ++ ['\n']) (.text .bare) {}
  rw [show Sketch.draft vars {} = {} from rfl] at hscan
  rw [statements?_eq_scan, hscan, outline?]
  rcases sketch (text.toList ++ ['\n']) (.text .bare) {} with ⟨cause, n⟩ | ⟨statements, m, s⟩
  · rfl
  · have hflag : (s.draft vars).joined = s.joined := rfl
    simp only [Except.map, hflag]
    split_ifs <;> rfl

/-- **Values are not read as syntax.**  Whatever the variables are, the statements of a text are its
    outline with the values filled in; whether there is an outline, and why not, does not depend on
    the variables. -/
theorem statements?_outline (text : String) :
    (∀ vars, statements? text vars = (outline? text).map (statementsOf vars)) ∧
      ∀ vars vars' fault, statements? text vars = .error fault →
        statements? text vars' = .error fault := by
  refine ⟨fun vars => statements?_eq_outline vars text, ?_⟩
  intro vars vars' fault h
  rw [statements?_eq_outline] at h ⊢
  cases houtline : outline? text with
  | error fault' =>
    rw [houtline] at h
    cases h
    rfl
  | ok statements =>
    rw [houtline] at h
    cases h

/-- A quote ends the second word, so it stays even if it comes out empty; the third one may go. -/
example : outline? "e $A\"$B\" $C" =
    .ok [[⟨[.char 'e'], .gap⟩, ⟨[.value "A", .value "B"], .quote⟩, ⟨[.value "C"], .gap⟩]] := rfl

end NestedShell.Statement
