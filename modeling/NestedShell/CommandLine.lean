/-
  The command line of the shell: its options, its startup file, and what it does with its input.

  * `CommandLine.parse` reads the options;
  * `CommandLine.startupPath?` is where the startup file is looked for;
  * `CommandLine.settings` are the settings to start with, `CommandLine.start` the session;
  * `CommandLine.run` is a whole run, as a function of everything that it reads.
-/
import NestedShell.Playground
import NestedShell.Session
import NestedShell.StartupFile

namespace NestedShell.CommandLine

/-- The version that the code `%v` stands for. -/
def version : String := "0.1.0"

/-- How the shell is called. -/
def usage : String := "usage: nestsh [-x] [--plain] [--no-rc] [-c <command>]"

/-- What the arguments of the program ask for. -/
structure Options where
  /-- what to run instead of the standard input -/
  command : Option String := none
  plain : Bool := false
  skipStartup : Bool := false
  trace : Bool := false
deriving DecidableEq, Repr

/-- What the arguments ask for. -/
inductive Request where
  | start (options : Options)
  | help
  | missingCommand
  | unknownOption (text : String)
deriving DecidableEq, Repr

/-- Reads arguments from left to right; the first one that is no ordinary option decides. -/
def parse : Options → List String → Request
  | o, [] => .start o
  | o, arg :: rest =>
    if arg = "-c" then
      match rest with
      | [] => .missingCommand
      | text :: rest => parse { o with command := some text } rest
    else if arg = "--plain" then parse { o with plain := true } rest
    else if arg = "--no-rc" then parse { o with skipStartup := true } rest
    else if arg = "-x" then parse { o with trace := true } rest
    else if arg = "-h" ∨ arg = "--help" then .help
    else .unknownOption arg

/-- What a run leaves behind. -/
structure Report where
  out : String := ""
  err : String := ""
  code : Nat := 0
deriving DecidableEq, Repr

/-- The report of a request that starts no session. -/
def Request.report : Request → Report
  | start _ => {}
  | help => { out := usage ++ "\n" }
  | missingCommand => { err := s!"error: -c needs a command\n{usage}\n", code := 2 }
  | unknownOption text => { err := s!"error: unknown option '{text}'\n{usage}\n", code := 2 }

/-! ## The startup file -/

/-- What reading a file gives. -/
inductive FileContent where
  | missing
  | text (content : String)
  /-- the file could not be read, for this reason -/
  | failed (message : String)
deriving DecidableEq, Repr

/-- A file in a directory. -/
def joinPath (directory file : String) : String :=
  if directory = "" ∨ Text.endsWith '/' directory then directory ++ file
  else directory ++ "/" ++ file

/-- Where the startup file is looked for: where `NESTSH_RC` says, or in the home directory. -/
def startupPath? (env : Environment) : Option String :=
  match env.get? "NESTSH_RC" with
  | some path => some path
  | none => (env.get? "HOME").map (joinPath · ".nestshrc")

/-- The theme to start with. -/
def Options.theme (o : Options) : Theme := if o.plain then .plain else .ansi

/-- The startup settings of a file at a path, with the notes on them and what is written to the
    error stream when the file cannot be read.  A missing file is an empty one. -/
def settingsOf (theme : Theme) (path : String) :
    FileContent → Settings × List LogEntry × String
  | .missing => ({ theme }, [], "")
  | .text content =>
    let (s, notes) := Settings.read content theme
    (s, notes, "")
  | .failed message =>
    let fault : Fault := ⟨.reported .io message (some s!"reading {path}"), none⟩
    ({ theme }, [], s!"config error: {fault.summary}\n")

/-- The settings to start with, what is logged about them, and what is written to the error output.
    -/
def settings (o : Options) (env : Environment) (readFile : String → FileContent) :
    Settings × List LogEntry × String :=
  if o.skipStartup then ({ theme := o.theme }, [], "")
  else match startupPath? env with
    | none => ({ theme := o.theme }, [], "")
    | some path => settingsOf o.theme path (readFile path)

/-! ## Sessions -/

/-- The session to start with: the playground, with the variables of the process below those of the
    startup file. -/
def start (o : Options) (env : Environment) (s : Settings) (host : Template.Host) :
    Session Playground World :=
  let env := s.env.toList.foldl (fun env v => env.set v.1 v.2) env
  let console := Console.new s.theme host {} {}
  let console := (console.register 'v' (.literal version)).2
  { Session.new .root env s.aliases console {} with trace := o.trace }

/-- What a finished session reports. -/
def reportOf (s : Session Playground World) : Report where
  out := s.shell.console.out.written
  err := s.shell.console.err.written
  code := s.exitCode

/-- Runs one command text; nothing may be left open at its end. -/
def runText (s : Session Playground World) (text : String) : Report :=
  match s.feed (text.push '\n') with
  | (.more, s) =>
    { reportOf (s.onConsole (·.error "unexpected end of input")) with code := 2 }
  | (_, s) => reportOf s

/-- Runs a session on a source and reports how it ended; a source that fails is an error. -/
def runSource (s : Session Playground World) (source : LineSource) : Report :=
  match s.run source with
  | ⟨.ok (), s, _⟩ => reportOf s
  | ⟨.error fault, s, _⟩ =>
    let r := reportOf s
    { r with err := r.err ++ s!"error: {fault.summary}\n", code := 1 }

/-- A run of the shell, given its arguments, the variables of its process, the facts about its
    machine, the files that it may read, and its standard input. -/
def run (args : List String) (env : Environment) (host : Template.Host)
    (readFile : String → FileContent) (input : String) : Report :=
  match parse {} args with
  | .start o =>
    let (s, _, err) := settings o env readFile
    let session := start o env s host
    let r := match o.command with
      | some text => runText session text
      | none => runSource session (.ofScript input)
    { r with err := err ++ r.err }
  | request => request.report

end NestedShell.CommandLine
