/-
  What can go wrong, and how it is told.

  * a `Cause` says what went wrong; `Cause.kind`, `Cause.message` and `Cause.context` are its words;
  * a `Fault` is a cause with the byte offset in the input that it belongs to, if there is one;
  * `Fault.summary` tells a fault without its input, `Fault.shownIn` with the piece of the input
    around its position and a caret in the line below.

  Entering and leaving a level is never a fault.
-/
import NestedShell.Text.Offset
import NestedShell.Text.Cut

namespace NestedShell

/-- The kinds of faults. -/
inductive FaultKind where
  /-- malformed quotation, escape or variable reference -/
  | lexical
  /-- a usage line that cannot be read, or an automaton without a rule for a symbol -/
  | grammar
  /-- arguments that the usage of a command does not allow -/
  | usage
  /-- a command that failed -/
  | command
  /-- an alias that cannot be defined or expanded -/
  | aliasing
  /-- a setting that cannot be read -/
  | config
  /-- reading or writing that failed -/
  | io
deriving DecidableEq, Repr

/-- How a kind is named in front of a message. -/
def FaultKind.label : FaultKind → String
  | lexical => "Syntax error"
  | grammar => "Grammar error"
  | usage => "Usage error"
  | command => "Command error"
  | aliasing => "Alias error"
  | config => "Config error"
  | io => "I/O error"

/-- What can be left open when the input ends. -/
inductive OpenConstruct where
  | backslash
  | singleQuote
  | doubleQuote
  | brace
  | line
deriving DecidableEq, Repr

/-- What is said about something left open. -/
def OpenConstruct.message : OpenConstruct → String
  | backslash => "trailing backslash"
  | singleQuote => "unterminated single quote"
  | doubleQuote => "unterminated double quote"
  | brace => "unterminated $\x7b"
  | line => "line continues past end of input"

/-- What went wrong. -/
inductive Cause where
  /-- the name in a braced variable reference is empty -/
  | emptySubstitution
  /-- the line ends inside a braced variable reference -/
  | unterminatedName (name : String)
  /-- the input ends inside a construct -/
  | unfinished (construct : OpenConstruct)
  /-- one statement was asked for, and there are several -/
  | severalStatements (found : Nat)
  /-- an automaton has no rule; symbol, state and stack in their written form -/
  | undefinedTransition (symbol state stack : String)
  /-- a bracket of a usage line is not closed -/
  | missingCloser (closer line : String)
  /-- a repetition mark does not follow an element -/
  | strayRepetition (line : String)
  /-- a usage line has no words -/
  | emptyUsageLine (line : String)
  /-- a usage line goes on after its end -/
  | unexpectedToken (token line : String)
  /-- a usage section has no lines -/
  | emptyUsageSection
  /-- the arguments match none of the forms -/
  | usageMismatch (forms : List String)
  | emptyAliasName
  /-- the words that replace an alias have no first word -/
  | emptyReplacement (name : String)
  /-- the first words that the expansion of an alias ran through -/
  | aliasLoop (heads : List String)
  | unknownCyclePolicy (text : String)
  /-- a setting for a slot that does not exist, and the slots that do -/
  | unknownColorKey (key : String) (valid : List String)
  | unrecognizedDirective
  | invalidVariableName (name : String)
  | aliasWithoutValue
  | invalidAliasName (name : String)
  /-- a code of templates already has a meaning -/
  | codeTaken (code : Char)
  | notBuiltin (name : String)
  /-- several words after `alias` that are no definition -/
  | notDefinition (text : String)
  /-- what a command or a device reports in words of its own -/
  | reported (kind : FaultKind) (message : String) (context : Option String)
deriving DecidableEq, Repr

namespace Cause

/-- The kind of fault that a cause makes. -/
def kind : Cause → FaultKind
  | emptySubstitution | unterminatedName _ | unfinished _ | severalStatements _ => .lexical
  | undefinedTransition .. | missingCloser .. | strayRepetition _ | emptyUsageLine _
  | unexpectedToken .. | emptyUsageSection => .grammar
  | usageMismatch _ => .usage
  | emptyAliasName | emptyReplacement _ | aliasLoop _ => .aliasing
  | unknownCyclePolicy _ | unknownColorKey .. | unrecognizedDirective | invalidVariableName _
  | aliasWithoutValue | invalidAliasName _ | codeTaken _ => .config
  | notBuiltin _ | notDefinition _ => .command
  | reported kind _ _ => kind

/-- What is said about a cause. -/
def message : Cause → String
  | emptySubstitution => "bad substitution: $\x7b\x7d"
  | unterminatedName name => "bad substitution: unterminated $\x7b" ++ name
  | unfinished construct => construct.message
  | severalStatements found => s!"expected one statement, found {found}"
  | undefinedTransition symbol state _ => s!"transition {symbol} is undefined in state {state}"
  | missingCloser closer _ => s!"missing '{closer}'"
  | strayRepetition _ => "'...' must follow an element"
  | emptyUsageLine _ => "empty usage line"
  | unexpectedToken token _ => s!"unexpected '{token}'"
  | emptyUsageSection => "empty usage section"
  | usageMismatch forms => "usage: " ++ "\n       ".intercalate forms
  | emptyAliasName => "alias name is empty"
  | emptyReplacement name => s!"alias {name}: replacement is empty"
  | aliasLoop heads => "alias loop: " ++ " -> ".intercalate heads
  | unknownCyclePolicy text => s!"invalid alias cycle policy: {text}"
  | unknownColorKey key _ => s!"unknown color key '{key}'"
  | unrecognizedDirective => "unrecognized directive"
  | invalidVariableName name => s!"invalid variable name '{name}'"
  | aliasWithoutValue => "alias missing '='"
  | invalidAliasName name => s!"invalid alias name '{name}'"
  | codeTaken code => s!"expansion code '%{code}' already exists"
  | notBuiltin name => s!"{name}: not a builtin"
  | notDefinition text => s!"alias: expected name=value, got '{text}'"
  | reported _ message _ => message

/-- What is added to a message as a hint. -/
def context : Cause → Option String
  | undefinedTransition _ _ stack => some s!"stack: {stack}"
  | missingCloser _ line | strayRepetition line | emptyUsageLine line | unexpectedToken _ line =>
    some s!"in usage line '{line}'"
  | unknownCyclePolicy _ => some "valid values: stop, reject"
  | unknownColorKey _ valid => some ("valid keys: " ++ ", ".intercalate valid)
  | reported _ _ context => context
  | _ => none

end Cause

/-- A cause, and the byte offset in the input that it belongs to. -/
structure Fault where
  cause : Cause
  position : Option Nat := none
deriving DecidableEq, Repr

namespace Fault

/-- The fault that a command reports itself. -/
def ofCommand (message : String) (context : Option String) : Fault :=
  ⟨.reported .command message context, none⟩

/-- The kind of a fault is that of its cause. -/
def kind (fault : Fault) : FaultKind := fault.cause.kind

/-- What is said about a fault, without its place. -/
def message (fault : Fault) : String := fault.cause.message

/-- What the cause says about where it arose. -/
def context (fault : Fault) : Option String := fault.cause.context

/-- The kind and the message of a fault. -/
def headline (fault : Fault) : String :=
  s!"{fault.kind.label}: {fault.message}"

/-- The line that a hint adds. -/
def hintLine : Option String → String
  | some context => s!"\n  hint: {context}"
  | none => ""

/-- A fault, told without its input. -/
def summary (fault : Fault) : String :=
  fault.headline ++ hintLine fault.context

/-- How many bytes of the input are shown on either side of a position. -/
def reach : Nat := 15

/-- The bounds of the piece of the input that is shown for a position. -/
def window (pos : Nat) (input : String) : Nat × Nat :=
  (Text.floorBoundary (pos - reach) input.toList,
    Text.floorBoundary (min (pos + reach) input.utf8ByteSize) input.toList)

/-- A fault, told with the piece of the input around its position and a caret below it.  The caret
    is indented by the characters before it and the length of what stands before the piece. -/
def shownIn (fault : Fault) (input : String) : String :=
  fault.headline ++ match fault.position with
    | some pos =>
      if pos < input.utf8ByteSize ∧ Text.isBoundary pos input.toList = true then
        let (start, stop) := window pos input
        let tail := Text.dropBytes start input.toList
        let piece := String.ofList (Text.takeBytes (stop - start) tail)
        let shown := Text.replaceChar '\n' "↵" piece
        let column := (Text.takeBytes (pos - start) tail).length
        s!"\n  near: '{shown}'\n  " ++
          String.ofList (List.replicate (column + 9) ' ') ++ "^"
      else s!"\n  at position {pos} (end of input)"
    | none => hintLine fault.context

end Fault

end NestedShell
