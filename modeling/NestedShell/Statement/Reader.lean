/-
  Reading statements.  A statement is a list of words.  Blanks (space and tab) end a word, `;` and
  newline end a statement.  Single quotes are literal; double quotes allow variables, escapes, and
  literal runs in single quotes.  Closing a quote ends a word, so `""` is a word of its own.
  `$NAME` and `${NAME}` are replaced by the value of the variable, which is not read as syntax.

  Input arrives in pieces.  What is not read yet stays pending, and a statement may spread over
  several pieces.

  * a `Mode` is the state of the automaton, a `Draft` the statement under construction;
  * `machine` is the automaton that reads characters into a draft;
  * `Reader.push` queues a piece of input, `Reader.next` reads up to the end of a statement,
    `Reader.feed` does both until the input is used up, `Reader.abandon` starts afresh;
  * `Reader.status` tells whether a quotation, an escape or a variable is left open.
-/
import NestedShell.Automaton
import NestedShell.Statement.Quoting

namespace NestedShell

/-- The words of a statement: a command and its arguments. -/
abbrev Words := List String

namespace Statement

/-! ## The automaton -/

/-- Whether a place in the input is between double quotes. -/
inductive Place where
  | bare | quoted
deriving DecidableEq, Repr

/-- What is being read. -/
inductive Mode where
  /-- ordinary text -/
  | text (p : Place)
  /-- the character after a backslash -/
  | escape (p : Place)
  /-- text between single quotes -/
  | literal (p : Place)
  /-- the character after a dollar sign -/
  | dollar (p : Place)
  /-- an unbraced variable name -/
  | name (p : Place)
  /-- a variable name between braces -/
  | braced (p : Place)
deriving DecidableEq, Repr

/-- The number of a mode, for messages. -/
def Mode.number : Mode → Nat
  | text .bare => 0
  | escape .bare => 1
  | literal .bare => 2
  | text .quoted => 3
  | escape .quoted => 4
  | literal .quoted => 5
  | dollar .bare => 6
  | name .bare => 7
  | braced .bare => 8
  | dollar .quoted => 9
  | name .quoted => 10
  | braced .quoted => 11

/-- A statement under construction. -/
structure Draft where
  /-- the word that is being read -/
  word : String := ""
  /-- the variable name that is being read -/
  name : String := ""
  /-- the words that are complete -/
  args : Words := []
  /-- the statement that was just ended -/
  statement : Option Words := none
  /-- whether the last line was continued by a backslash at its end -/
  joined : Bool := false
deriving DecidableEq, Repr

namespace Draft

/-- Adds a character to the word. -/
def addChar (c : Char) (d : Draft) : Draft := { d with word := d.word.push c }

/-- Ends the word, even an empty one. -/
def closeWord (d : Draft) : Draft := { d with word := "", args := d.args ++ [d.word] }

/-- Ends the word if there is one. -/
def breakWord (d : Draft) : Draft := if d.word = "" then d else d.closeWord

/-- Ends the last word if there is one, and with it the statement. -/
def closeStatement (d : Draft) : Draft :=
  let d := d.breakWord
  { d with statement := some d.args, args := [], joined := false }

/-- Starts the name of a variable. -/
def openName (d : Draft) : Draft := { d with name := "" }

/-- Adds a character to the name of a variable. -/
def addNameChar (c : Char) (d : Draft) : Draft := { d with name := d.name.push c }

/-- Adds the value of the variable to the word; a name that is empty or not set adds nothing. -/
def substitute (vars : Lookup) (d : Draft) : Draft :=
  if d.name = "" then d
  else { d with name := "", word := d.word ++ (vars d.name).getD "" }

end Draft

/-- A rule of the reader. -/
abbrev ModeRule := Rule Char Mode Draft

/-- Changes the draft and stays in the mode. -/
def stay (f : Draft → Draft) : ModeRule := ⟨some (.change fun _ _ => f), none⟩

/-- Goes to another mode, and leaves the draft alone. -/
def move (m : Mode) : ModeRule := ⟨none, some m⟩

/-- Changes the draft and goes to another mode. -/
def changeMove (f : Draft → Draft) (m : Mode) : ModeRule := ⟨some (.change fun _ _ => f), some m⟩

/-- Adds the character that is read to the word. -/
def addStay : ModeRule := ⟨some (.change fun _ => Draft.addChar), none⟩

/-- Ends an unbraced variable; the character that ends it belongs to the text around it. -/
def endName : Action Char Draft := fun vars c b =>
  (.ok (), ⟨b.scratch.substitute vars, c :: b.pushed⟩)

/-- Ends a braced variable, whose name must not be empty. -/
def endBraced : Action Char Draft := fun vars _ b =>
  if b.scratch.name = "" then (.error ⟨.emptySubstitution, none⟩, b)
  else (.ok (), { b with scratch := b.scratch.substitute vars })

/-- Refuses a line end inside a braced variable. -/
def refuseLineEnd : Action Char Draft := fun _ _ b =>
  (.error ⟨.unterminatedName b.scratch.name, none⟩, b)

/-- The rules for single characters. -/
def exactRule : Mode → Char → Option ModeRule
  | .text .bare, c =>
    if c = ' ' ∨ c = '\t' then some (stay Draft.breakWord)
    else if c = ';' ∨ c = '\n' then some (stay Draft.closeStatement)
    else if c = '\\' then some (move (.escape .bare))
    else if c = '\'' then some (move (.literal .bare))
    else if c = '"' then some (move (.text .quoted))
    else if c = '$' then some (changeMove Draft.openName (.dollar .bare))
    else none
  | .text .quoted, c =>
    if c = '"' then some (changeMove Draft.closeWord (.text .bare))
    else if c = '\\' then some (move (.escape .quoted))
    else if c = '\'' then some (move (.literal .quoted))
    else if c = '$' then some (changeMove Draft.openName (.dollar .quoted))
    else none
  | .escape p, c =>
    if c = '\n' then some (changeMove (fun d => { d with joined := true }) (.text p)) else none
  | .literal .bare, c =>
    if c = '\'' then some (changeMove Draft.closeWord (.text .bare)) else none
  | .literal .quoted, c => if c = '\'' then some (move (.text .quoted)) else none
  | .dollar p, c =>
    if c = '{' then some (move (.braced p))
    else if isNameChar c then some ⟨some (.change fun _ => Draft.addNameChar), some (.name p)⟩
    else none
  | .name _, c =>
    if isNameChar c then some ⟨some (.change fun _ => Draft.addNameChar), none⟩ else none
  | .braced p, c =>
    if c = '}' then some ⟨some endBraced, some (.text p)⟩
    else if c = '\n' then some ⟨some refuseLineEnd, none⟩
    else none

/-- The rules for the other characters: there is one in every mode. -/
def anyRule : Mode → ModeRule
  | .text _ | .literal _ => addStay
  | .escape p => ⟨some (.change fun _ c => Draft.addChar (resolveEscape c)), some (.text p)⟩
  | .dollar p | .name p => ⟨some endName, some (.text p)⟩
  | .braced _ => ⟨some (.change fun _ => Draft.addNameChar), none⟩

/-- The automaton that reads statements. -/
def machine : Automaton Char Mode Draft where
  initial := .text .bare
  exact := exactRule
  any m := some (anyRule m)

/-- In every mode there is a rule for every character. -/
theorem machine_rule? (m : Mode) (c : Char) :
    machine.rule? m c = some ((exactRule m c).getD (anyRule m)) := by
  simp only [Automaton.rule?, machine]
  cases exactRule m c <;> rfl

end Statement

open Statement

/-! ## Readers -/

/-- Whether a fresh statement may start, or something is left open. -/
inductive Reader.Status where
  | complete | continuation
deriving DecidableEq, Repr

/-- A reader of statements: the run of the automaton and the input that is not read yet, every
    character with its byte offset in the piece that it came with. -/
structure Reader where
  run : Run Char Mode Draft := machine.start {}
  pending : List (Nat × Char) := []
  /-- whether the last piece ended with a newline; true before the first piece -/
  endedLine : Bool := true
deriving DecidableEq, Repr

namespace Reader

/-- The statement under construction. -/
def draft (r : Reader) : Draft := r.run.bench.scratch

/-- Whether nothing of a statement has been read. -/
def isClear (r : Reader) : Bool :=
  machine.isIdle r.run && r.draft.word = "" && r.draft.args = []

/-- Whether a backslash at the end of the input waits for its character. -/
def awaitsEscaped (r : Reader) : Bool :=
  r.pending.isEmpty && (r.run.state = .escape .bare || r.run.state = .escape .quoted)

/-- Queues a piece of input.  A piece that does not start on a new line is set off by a space,
    unless no statement has begun or a backslash waits for its first character. -/
def push (r : Reader) (text : String) : Reader :=
  if text = "" then r
  else
    let gap := if !r.endedLine && !r.isClear && !r.awaitsEscaped then [(0, ' ')] else []
    { run := { r.run with bench.scratch.joined := false }
      pending := r.pending ++ gap ++ Text.offsets 0 text.toList
      endedLine := Text.endsWith '\n' text }

/-- Drops the pending input and the statement under construction. -/
def abandon (_ : Reader) : Reader := {}

/-- Takes the statement that was just ended out of the draft; one without words does not count. -/
def takeStatement (r : Reader) : Option Words × Reader :=
  (r.draft.statement.filter (!·.isEmpty),
    { r with run.bench.scratch.statement := none })

/-- Reads one character.  At most one symbol is pushed back, and it is read as ordinary text, which
    pushes nothing back.  A fault drops everything, and belongs to the place of the character. -/
def step (vars : Lookup) (pos : Nat) (c : Char) (r : Reader) :
    Except Fault (Option Words) × Reader :=
  match machine.advance vars 1 c r.run with
  | (.ok (), run) =>
    let (statement, r) := takeStatement { r with run }
    (.ok statement, r)
  | (.error stop, _) =>
    let fault := stop.fault Text.quotedChar (toString ·.number)
    (.error { fault with position := some pos }, r.abandon)

/-- Reads characters up to the end of a statement. -/
def nextOf (vars : Lookup) : List (Nat × Char) → Reader → Except Fault (Option Words) × Reader
  | [], r => (.ok none, { r with pending := [] })
  | (pos, c) :: rest, r =>
    match r.step vars pos c with
    | (.ok none, r') => nextOf vars rest r'
    | (.ok (some statement), r') => (.ok (some statement), { r' with pending := rest })
    | (.error fault, r') => (.error fault, r')

/-- Reads pending input up to the end of a statement.  Variables are looked up as they are
    reached. -/
def next (vars : Lookup) (r : Reader) : Except Fault (Option Words) × Reader :=
  nextOf vars r.pending r

/-- Reads characters and collects the statements that they end. -/
def drainOf (vars : Lookup) : List (Nat × Char) → Reader → Except Fault (List Words) × Reader
  | [], r => (.ok [], { r with pending := [] })
  | (pos, c) :: rest, r =>
    match r.step vars pos c with
    | (.ok none, r') => drainOf vars rest r'
    | (.ok (some statement), r') =>
      match drainOf vars rest r' with
      | (.ok statements, r'') => (.ok (statement :: statements), r'')
      | (.error fault, r'') => (.error fault, r'')
    | (.error fault, r') => (.error fault, r')

/-- Whether the input may end here, as far as the reader can tell. -/
def status (r : Reader) : Status :=
  if machine.isIdle r.run && !r.draft.joined then .complete else .continuation

/-- The complete words of the statement that has not ended yet. -/
def partialWords (r : Reader) : Words := r.draft.args

/-- The input that is not read yet. -/
def pendingText (r : Reader) : String := String.ofList (r.pending.map (·.2))

/-- Queues a piece of input and reads everything. -/
def feed (vars : Lookup) (text : String) (r : Reader) :
    Except Fault (List Words × Status) × Reader :=
  let r := r.push text
  match drainOf vars r.pending r with
  | (.ok statements, r') => (.ok (statements, r'.status), r')
  | (.error fault, r') => (.error fault, r')

/-- What is left open, if the input ends here. -/
def openConstruct (r : Reader) : OpenConstruct :=
  match r.run.state with
  | .escape _ => .backslash
  | .literal _ => .singleQuote
  | .text .quoted | .dollar .quoted | .name .quoted => .doubleQuote
  | .braced _ => .brace
  | .text .bare | .dollar .bare | .name .bare => .line

end Reader

end NestedShell
