/-
  Usage lines: one accepted form of a command, such as `copy [-f] <from>... (<to>|--into=<dir>)`.

  The first word is the name of the command.  Then brackets enclose an optional part, parentheses a
  group, `|` separates alternatives and `...` repeats the element before it.  Every other word is
  an argument `<name>`, an option `-x`, `--name` or `--name=<value>`, or a literal word.

  * `tokens` are the tokens of a line;
  * `Frame` is what has been read of one bracket, `parseTokens` reads tokens in one pass with a
    stack of frames;
  * `parseLine` reads a line.
-/
import NestedShell.Usage.Pattern
import NestedShell.Fault

namespace NestedShell.Usage

/-! ## Tokens -/

/-- The brackets of a usage line: square ones for what is optional, round ones for what is not. -/
inductive Bracket where
  | square | round
deriving DecidableEq, Repr

/-- How a bracket is closed. -/
def Bracket.closer : Bracket → String
  | square => "]"
  | round => ")"

/-- The pattern of what stands between brackets. -/
def Bracket.wrap : Bracket → Pattern → Pattern
  | square => .optional
  | round => .group

/-- The tokens of a usage line. -/
inductive Token where
  | opening (b : Bracket)
  | closing (b : Bracket)
  | bar
  | dots
  | word (text : String)
deriving DecidableEq, Repr

/-- The token that a character is by itself. -/
def Token.ofChar? (c : Char) : Option Token :=
  if c = '[' then some (.opening .square)
  else if c = ']' then some (.closing .square)
  else if c = '(' then some (.opening .round)
  else if c = ')' then some (.closing .round)
  else if c = '|' then some .bar
  else none

/-- The word that ends here, in front of what follows; its characters come last first. -/
def flushWord (current : List Char) (rest : List Token) : List Token :=
  if current = [] then rest else .word (String.ofList current.reverse) :: rest

/-- The tokens of a text without blanks, after the characters of the current word. -/
def tokensOfChars : List Char → List Char → List Token
  | current, '.' :: '.' :: '.' :: rest => flushWord current (.dots :: tokensOfChars [] rest)
  | current, c :: rest =>
    match Token.ofChar? c with
    | some t => flushWord current (t :: tokensOfChars [] rest)
    | none => tokensOfChars (c :: current) rest
  | current, [] => flushWord current []
termination_by structural _ cs => cs

/-- The tokens of a line; blanks only separate them. -/
def tokens (line : String) : List Token :=
  (Text.words line).flatMap fun w => tokensOfChars [] w.toList

/-! ## Elements -/

/-- What a word of a usage line stands for. -/
def elementOfWord (word : String) : Pattern :=
  if Text.startsWith "<" word ∧ Text.endsWith '>' word ∧ 2 < word.utf8ByteSize then .argument word
  else if Text.startsWith "--" word ∧ 2 < word.utf8ByteSize then
    match Text.cutAt '=' word with
    | some (key, _) => .valued key
    | none => .flag word
  else if Text.startsWith "-" word ∧ word.utf8ByteSize = 2 then .flag word
  else .literal word

/-! ## Reading tokens -/

/-- What has been read inside one bracket: the alternatives before the last `|` and the elements
    after it, the latest ones first. -/
structure Frame where
  branches : List Pattern := []
  items : List Pattern := []
  /-- whether the last token was an element, which a repetition mark may follow -/
  repeatable : Bool := false
deriving DecidableEq, Repr

namespace Frame

/-- The sequence of the elements after the last `|`. -/
def sequence (f : Frame) : Pattern := .seqAll f.items.reverse

/-- The pattern of all that was read in the frame. -/
def pattern (f : Frame) : Pattern := .altAll (f.branches.reverse ++ [f.sequence])

/-- Adds an element, which a repetition mark may follow. -/
def add (f : Frame) (p : Pattern) : Frame := { f with items := p :: f.items, repeatable := true }

/-- Starts another alternative. -/
def branch (f : Frame) : Frame := { branches := f.sequence :: f.branches }

/-- Repeats the last element, if the last token was one. -/
def repeatLast? (f : Frame) : Option Frame :=
  match f.repeatable, f.items with
  | true, p :: ps => some { f with items := .oneOrMore p :: ps, repeatable := false }
  | _, _ => none

end Frame

/-- Why tokens are no usage line. -/
inductive LineFault where
  /-- a bracket is not closed where it has to be -/
  | missingCloser (b : Bracket)
  /-- a bracket is closed that is not open -/
  | unexpectedCloser (b : Bracket)
  /-- a repetition mark does not follow an element -/
  | strayRepetition
deriving DecidableEq, Repr

/-- The cause of a fault in a certain line. -/
def LineFault.cause (line : String) : LineFault → Cause
  | missingCloser b => .missingCloser b.closer line
  | unexpectedCloser b => .unexpectedToken b.closer line
  | strayRepetition => .strayRepetition line

/-- Reads the tokens that are left.  The frames around the current one come with the bracket that
    interrupts them, the innermost one first. -/
def parseTokens : Frame → List (Bracket × Frame) → List Token → Except LineFault Pattern
  | f, [], [] => .ok f.pattern
  | _, (b, _) :: _, [] => .error (.missingCloser b)
  | f, outer, .opening b :: ts => parseTokens {} ((b, f) :: outer) ts
  | _, [], .closing b :: _ => .error (.unexpectedCloser b)
  | f, (b, g) :: outer, .closing b' :: ts =>
    if b' = b then parseTokens (g.add (b.wrap f.pattern)) outer ts
    else .error (.missingCloser b)
  | f, outer, .bar :: ts => parseTokens f.branch outer ts
  | f, outer, .dots :: ts =>
    match f.repeatLast? with
    | some f' => parseTokens f' outer ts
    | none => .error .strayRepetition
  | f, outer, .word w :: ts => parseTokens (f.add (elementOfWord w)) outer ts
termination_by structural _ _ ts => ts

/-- The pattern of a usage line.  Its first token is the name of the command. -/
def parseLine (line : String) : Except Fault Pattern :=
  match tokens line with
  | [] => .error ⟨.emptyUsageLine line, none⟩
  | _ :: ts => (parseTokens {} [] ts).mapError fun fault => ⟨fault.cause line, none⟩

end NestedShell.Usage
