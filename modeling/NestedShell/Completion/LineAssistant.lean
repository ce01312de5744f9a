/-
  Help while a line is typed: completions of the word under the cursor, and a hint at what may
  follow the cursor.

  * `tokenBefore` is the word that ends at the cursor, a run without blanks and `;`;
  * `LineAssistant.complete` offers the words that the word may become: variables after a dollar
    sign, commands at the start of a statement, and arguments of the command otherwise;
  * `LineAssistant.hint?` shows the rest of an earlier line, or of the best candidate.

  Cursor positions are byte offsets at a boundary of the line.
-/
import NestedShell.Completion.WordList
import NestedShell.Completion.Suggestion
import NestedShell.Completion.History
import NestedShell.Text.Offset
import NestedShell.Theme

namespace NestedShell

/-- What a line editor knows while a level is active. -/
structure LineAssistant where
  snapshot : Snapshot := {}
  /-- the colour of hints -/
  hintColor : String := "bright_black"

/-- A completion: what the word from `start` on may be replaced by. -/
structure Completion where
  /-- the byte offset at which the word starts -/
  start : Nat
  replacements : List String

namespace LineAssistant

/-- Whether a character ends a word of the line. -/
def isSeparator (c : Char) : Bool := Text.isBlank c || c == ';'

/-- What stands before the cursor: the part before the word that ends there, and that word. -/
def tokenBefore (line : String) (pos : Nat) : List Char × List Char :=
  let before := Text.takeBytes pos line.toList
  let token := (before.reverse.takeWhile (!isSeparator ·)).reverse
  (before.take (before.length - token.length), token)

/-- Whether a command is expected after some text. -/
def expectsCommand (before : List Char) : Bool :=
  match (Text.dropEndWhile Text.isBlank before).getLast? with
  | none => true
  | some c => c == ';'

/-- The command whose argument is expected after some text. -/
def commandBefore? (before : List Char) : Option String :=
  (Text.words (Text.afterLast ';' (String.ofList before))).head?

variable (a : LineAssistant)

/-- The candidates for a word after some text. -/
def candidatesAfter (before : List Char) : List String :=
  if expectsCommand before then a.snapshot.commands
  else match commandBefore? before with
    | some command => a.snapshot.argumentsFor command ""
    | none => []

/-- The candidates that start with a text, each with something around it. -/
def offers (start : String) (candidates : List String) (opening closing : String) : List String :=
  (candidates.filter (Text.startsWith start)).map fun c => opening ++ c ++ closing

/-- What the word in front of the cursor can be completed to. -/
def complete (line : String) (pos : Nat) : Completion :=
  let (before, token) := tokenBefore line pos
  let token := String.ofList token
  { start := Text.byteLength before
    replacements :=
      match Text.strip? "$\x7b" token with
      | some name => offers name a.snapshot.vars "$\x7b" "\x7d"
      | none =>
        match Text.strip? "$" token with
        | some name => offers name a.snapshot.vars "$" ""
        | none => offers token (a.candidatesAfter before) "" "" }

/-- What may follow the word before the cursor: the rest of the best candidate, or an arrow and the
    candidate when the word is not the start of it. -/
def wordHint? (line : String) (pos : Nat) : Option String :=
  let (before, token) := tokenBefore line pos
  let token := String.ofList token
  if token = "" ∨ Text.startsWith "$" token then none
  else match Suggestion.suggestion? token (a.candidatesAfter before) with
    | none => none
    | some candidate =>
      match Text.strip? token candidate with
      | some rest => if rest = "" then none else some rest
      | none => some (" -> " ++ candidate)

/-- The rest of the latest line that starts with the whole line, when the cursor is at its end. -/
def historyHint? (history : History) (line : String) (pos : Nat) : Option String :=
  if line = "" ∨ pos < line.utf8ByteSize then none
  else match history.latest? line with
    | none => none
    | some entry => if entry = line then none else Text.strip? line entry

/-- What may follow the cursor. -/
def hint? (history : History) (line : String) (pos : Nat) : Option String :=
  historyHint? history line pos <|> a.wordHint? line pos

/-- A hint in its colour, if it has one. -/
def paintHint (hint : String) : String :=
  let color := colorSequence a.hintColor
  if hint = "" ∨ color = "" then hint else color ++ hint ++ "\x1b[0m"

end LineAssistant

end NestedShell
