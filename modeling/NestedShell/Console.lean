/-
  The console: where commands and the engine write.

  Ordinary text goes to the output stream, errors and warnings to the error stream in the colours
  of the theme.  Text from templates is expanded with plain colour sequences, prompts with the
  marked ones of a line editor.

  * a `Sink` takes what is written, or refuses everything; a refusal is only noted in the log;
  * a `Console` has two sinks, an expander for output and one for prompts;
  * `Console.error` and `Console.warning` write texts verbatim, `printf` expands a template,
    `printDoc` lays out a help text, `prompt` expands a prompt.
-/
import NestedShell.Template.Expander
import NestedShell.Text.Dedent

namespace NestedShell

open Template (Expander Expansion Host)

/-- What is written to a stream. -/
structure Sink where
  written : String := ""
  /-- when it is set, every write fails with this message -/
  failure : Option String := none
deriving DecidableEq, Repr

/-- Writes a text; the empty one is written by doing nothing, so it never fails. -/
def Sink.write (s : Sink) (text : String) : Except String Sink :=
  match s.failure with
  | some message => if text = "" then .ok s else .error message
  | none => .ok { s with written := s.written ++ text }

/-- The console of a session. -/
structure Console where
  out : Sink := {}
  err : Sink := {}
  /-- expands what is written -/
  formatter : Expander
  /-- expands prompts -/
  prompter : Expander
  theme : Theme
  log : List LogEntry := []

namespace Console

/-- A console with two sinks. -/
def new (theme : Theme) (host : Host) (out err : Sink) : Console where
  out
  err
  formatter := .new theme host .plain
  prompter := .new theme host .editor
  theme

/-- Adds an entry to the log. -/
def note (k : Console) (entry : LogEntry) : Console := { k with log := k.log ++ [entry] }

/-! ## Writing -/

/-- Writes to the output; when that fails, it is noted. -/
def write (k : Console) (text : String) : Console :=
  match k.out.write text with
  | .ok out => { k with out }
  | .error message => k.note (.writeFailed .out message)

/-- Writes to the error output; when that fails, it is noted. -/
def writeError (k : Console) (text : String) : Console :=
  match k.err.write text with
  | .ok err => { k with err }
  | .error message => k.note (.writeFailed .err message)

/-- Writes a text and a line end to the output. -/
def print (k : Console) (text : String) : Console := k.write (text ++ "\n")

/-- Expands a template for the output.  The texts of codes are produced for both expanders
    together, so the other one is told how often that happened. -/
def format (k : Console) (vars : Lookup) (template : String) : String × Console :=
  let x := k.formatter.expand vars template
  (x.text,
    { k with
      formatter := x.expander
      prompter := { k.prompter with produced := x.expander.produced }
      log := k.log ++ x.log })

/-- Expands a template for a line editor. -/
def prompt (k : Console) (vars : Lookup) (template : String) : String × Console :=
  let x := k.prompter.expand vars template
  (x.text,
    { k with
      prompter := x.expander
      formatter := { k.formatter with produced := x.expander.produced }
      log := k.log ++ x.log })

/-- Writes an expanded template to the output. -/
def printf (k : Console) (vars : Lookup) (template : String) : Console :=
  let (text, k) := k.format vars template
  k.write text

/-- Writes a text in red to the error stream. -/
def error (k : Console) (text : String) : Console :=
  let (line, k) := k.format noVariables ("%r" ++ Template.escape text ++ "%N\n")
  k.writeError line

/-- Writes a text in bright yellow to the error stream. -/
def warning (k : Console) (text : String) : Console :=
  let (line, k) := k.format noVariables ("%Y" ++ Template.escape text ++ "%N\n")
  k.writeError line

/-! ## Help texts -/

/-- A text without the newlines at either end. -/
def trimNewlines (s : String) : String :=
  String.ofList (Text.dropEndWhile (· == '\n') (s.toList.dropWhile (· == '\n')))

/-- A line of a help text, indented unless it is empty. -/
def docLine (line : String) : String :=
  if line = "" then "\n" else "  " ++ line ++ "\n"

/-- Writes a help text: its first line in the colour of help texts, the others without the
    indentation that they have in common, expanded, and indented by two spaces. -/
def printDoc (k : Console) (vars : Lookup) (doc : String) : Console :=
  let doc := trimNewlines doc
  let (first, rest) := (Text.cutAt '\n' doc).getD (doc, "")
  let (body, k) := k.format vars (Text.dedent rest)
  k.write (k.theme.sequence .helpText ++ Text.trim first ++ k.theme.sequence .normal ++ "\n" ++
    String.join ((Text.lines body).map docLine))

/-! ## Codes -/

/-- Adds a code for output and prompts; when one of them refuses it, neither gets it. -/
def register (k : Console) (code : Char) (expansion : Expansion) : Except Fault Unit × Console :=
  match k.formatter.register code expansion with
  | .error fault => (.error fault, k)
  | .ok formatter =>
    match k.prompter.register code expansion with
    | .error fault => (.error fault, { k with formatter := (formatter.unregister code).2 })
    | .ok prompter => (.ok (), { k with formatter, prompter })

/-- Removes a code from output and prompts, and tells whether there was one. -/
def unregister (k : Console) (code : Char) : Bool × Console :=
  let (removed, formatter) := k.formatter.unregister code
  let (removed', prompter) := k.prompter.unregister code
  (removed' || removed, { k with formatter, prompter })

/-! ## What was written -/

/-- The console after what was written and logged has been taken away. -/
def flushed (k : Console) : Console :=
  { k with out.written := "", err.written := "", log := [] }

end Console

end NestedShell
