/-
  The log: what the engine notes down beside its output.

  * a `LogEntry` is one note, `LogEntry.line` its written form.
-/
import NestedShell.Fault
import NestedShell.Text.Escaped

namespace NestedShell

/-- The streams that a console writes to. -/
inductive OutputStream where
  | out | err
deriving DecidableEq, Repr

/-- The name of a stream in the log. -/
def OutputStream.label : OutputStream → String
  | out => "out"
  | err => "err"

/-- A note in the log. -/
inductive LogEntry where
  /-- a line of the startup file that was rejected -/
  | rejectedLine (number : Nat) (fault : Fault)
  /-- a symbol that does not fit into an escape of a template -/
  | malformedEscape (symbol : Char)
  /-- a template that could not be expanded further -/
  | brokenTemplate (fault : Fault)
  /-- the usage of a command cannot be read -/
  | badUsage (name : String) (fault : Fault)
  /-- something could not be written -/
  | writeFailed (stream : OutputStream) (message : String)
  /-- a statement is about to be dispatched -/
  | dispatched (depth : Nat) (argv : List String)
deriving DecidableEq, Repr

/-- The written form of a note: its level and its text. -/
def LogEntry.line : LogEntry → String
  | rejectedLine number fault => s!"WARN config:{number}: {fault.summary}"
  | malformedEscape symbol => "WARN prompt event=malformed symbol=" ++ Text.quotedChar symbol
  | brokenTemplate fault => s!"WARN prompt event=error err={fault.summary}"
  | badUsage name fault => s!"WARN dispatch event=bad_grammar name={name} err={fault.message}"
  | writeFailed stream message =>
    s!"WARN ui event=write_failed stream={stream.label} err={message}"
  | dispatched depth argv =>
    s!"INFO trace event=dispatch depth={depth} argv=" ++
      Text.bracketed (argv.map Text.quotedString)

end NestedShell
