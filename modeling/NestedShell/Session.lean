/-
  Sessions: reading input and dispatching its statements until every level is left.

  * `Session.readChar` reads a character; a statement is dispatched as soon as it ends, so that its
    variables are those of the level that is active at that time;
  * `Session.feed` reads a piece of input, up to where a `Halt` drops the rest of it;
  * `Session.request?` and `Session.answer` are the two halves of one turn with a line source,
    `Session.run` takes turns until no level is left;
  * `Session.exitStatus` is the status of the active level, or of the value that the last level
    left behind.
-/
import NestedShell.Dispatch
import NestedShell.LineSource

namespace NestedShell

/-- Where a session stands after some input. -/
inductive Flow where
  /-- a new statement may start -/
  | ready
  /-- something is left open -/
  | more
  /-- no level is left -/
  | ended
deriving DecidableEq, Repr

/-- Why the rest of a piece of input is dropped. -/
inductive Halt where
  /-- no level is left -/
  | ended
  | refused
  /-- a command gave up after an interrupt -/
  | aborted
deriving DecidableEq, Repr

/-- Whether reading halts after a statement. -/
def Dispatch.halt? : Dispatch → Option Halt
  | ended => some .ended
  | aborted => some .aborted
  | _ => none

/-- Where a session stands after the rest of its input was dropped. -/
def Halt.flow : Halt → Flow
  | ended => .ended
  | refused | aborted => .ready

/-- A session: the levels and what is outside of them, and the reader of the input. -/
structure Session (σ ω : Type) where
  shell : Shell σ ω
  reader : Reader := {}
  /-- whether every dispatched statement is noted in the log -/
  trace : Bool := false
  /-- the status of the last statement that left a level with a numeric one -/
  lastStatus : Int64 := 0

namespace Session

variable {σ ω : Type} [CommandSet σ ω]

/-- The primary prompt of a level that defines none. -/
def defaultPrimary : String := "> "

/-- The prompt for continued statements of a level that defines none. -/
def defaultSecondary : String := "... "

/-- A session whose first level runs a command set with the given variables and aliases. -/
def new (root : σ) (env : Environment) (aliases : AliasTable) (console : Console) (world : ω) :
    Session σ ω :=
  let shell : Shell σ ω := Shell.pushRoot { console, world } root env aliases
  { shell := { shell with
      stack := shell.stack.onTop fun level =>
        { level with
          env := (level.env.setDefault primaryPrompt defaultPrimary).setDefault secondaryPrompt
            defaultSecondary } } }

/-- Whether all levels have been left. -/
def isFinished (s : Session σ ω) : Bool := s.shell.stack.isEmpty

/-- The status that the session would end with: that of the active level, and when there is none, of
    the value that the last level left behind, or else the last status that was noted. -/
def exitStatus (s : Session σ ω) : Int64 :=
  match s.shell.stack.top? with
  | some level => (level.env.int? statusVariable).getD 0
  | none => (s.shell.stack.exitValue.map Value.status).getD s.lastStatus

/-- The status as a process reports it: its last eight bits. -/
def exitCode (s : Session σ ω) : Nat := (s.exitStatus.toInt % 256).toNat

/-- Asks the running command to give up. -/
def interrupt (s : Session σ ω) : Session σ ω := { s with shell.interrupted := true }

/-- Changes the console. -/
def onConsole (f : Console → Console) (s : Session σ ω) : Session σ ω :=
  { s with shell.console := f s.shell.console }

/-- Drops the input that is not dispatched yet. -/
def abandon (s : Session σ ω) : Session σ ω := { s with reader := s.reader.abandon }

/-! ## Input -/

/-- Remembers the status of the active level, if it is numeric. -/
def rememberStatus (s : Session σ ω) : Session σ ω :=
  match s.shell.stack.top?.bind fun level => level.env.int? statusVariable with
  | some status => { s with lastStatus := status }
  | none => s

/-- The shell in which a statement is dispatched.  The interrupt flag is lowered: an interrupt at
    the prompt must not stop the next command. -/
def prepare (s : Session σ ω) (argv : Words) : Shell σ ω :=
  let console := s.shell.console
  { s.shell with
    console := if s.trace then console.note (.dispatched s.shell.stack.depth argv) else console
    interrupted := false }

/-- Dispatches a statement that was read, and notes the status that it leaves. -/
def perform (s : Session σ ω) (argv : Words) : Dispatch × Session σ ω :=
  let (result, shell) := (s.prepare argv).dispatch argv
  (result, { s with shell }.rememberStatus)

/-- Reports a lexical fault in a piece of input. -/
def refuseInput (s : Session σ ω) (text : String) (fault : Fault) : Session σ ω :=
  { s with shell :=
      { s.shell with
        stack := s.shell.stack.onTop fun level =>
          { level with env := level.env.set statusVariable "2" }
        console := s.shell.console.error (fault.shownIn text) } }

/-- Reads a character, and dispatches the statement that it ends. -/
def readChar (text : String) (pos : Nat) (c : Char) (s : Session σ ω) :
    Option Halt × Session σ ω :=
  match s.shell.stack.top? with
  | none => (some .ended, s.abandon)
  | some level =>
    match s.reader.step level.env.lookup pos c with
    | (.error fault, reader) => (some .refused, { s with reader }.refuseInput text fault)
    | (.ok none, reader) => (none, { s with reader })
    | (.ok (some argv), reader) =>
      let (result, s) := { s with reader }.perform argv
      match result.halt? with
      | some halt => (some halt, s.abandon)
      | none => (none, s)

/-- Reads characters, up to where reading halts. -/
def readChars (text : String) : List (Nat × Char) → Session σ ω → Option Halt × Session σ ω
  | [], s => (none, s)
  | (pos, c) :: rest, s =>
    match s.readChar text pos c with
    | (none, s) => readChars text rest s
    | (some halt, s) => (some halt, s)

/-- Takes a piece of input, and hands out its characters with their places. -/
def queue (s : Session σ ω) (text : String) : List (Nat × Char) × Session σ ω :=
  let reader := s.reader.push text
  (reader.pending, { s with reader := { reader with pending := [] } })

/-- Reads a piece of input, up to where reading halts. -/
def readPiece (s : Session σ ω) (text : String) : Option Halt × Session σ ω :=
  let (pending, s) := s.queue text
  readChars text pending s

/-- Where a session stands after a piece of input. -/
def flowAfter (s : Session σ ω) : Option Halt → Flow
  | some halt => halt.flow
  | none =>
    match s.reader.status with
    | .complete => .ready
    | .continuation => .more

/-- Reads a piece of input and dispatches the statements that end in it. -/
def feed (s : Session σ ω) (text : String) : Flow × Session σ ω :=
  if s.isFinished then (.ended, s)
  else
    let (halt?, s) := s.readPiece text
    (s.flowAfter halt?, s)

/-! ## Turns with a line source -/

/-- The request for the next line, as long as there is a level. -/
def request? (s : Session σ ω) : Option (LineRequest × Session σ ω) :=
  match s.shell.stack.top? with
  | none => none
  | some level =>
    let continuing := s.reader.status = .continuation
    let name := if continuing then secondaryPrompt else primaryPrompt
    let (prompt, console) :=
      s.shell.console.prompt level.env.lookup ((level.env.get? name).getD "")
    some (⟨continuing, prompt, level.snapshot⟩, { s with shell.console := console })

/-- Meets the end of the input: what is left open is dropped, with a warning. -/
def endInput (s : Session σ ω) (continuing interactive : Bool) : Session σ ω :=
  let s := if interactive then s.onConsole (·.write "\n") else s
  let s := if continuing then s.onConsole (·.warning "unexpected end of input") else s
  s.abandon

/-- Leaves the active level at the end of the input. -/
def closeLevel (s : Session σ ω) (continuing interactive : Bool) : Session σ ω :=
  let s := s.endInput continuing interactive
  { s with shell := (s.shell.pop none).2 }

/-- Goes on with the answer to a request. -/
def answer (s : Session σ ω) (request : LineRequest) (interactive : Bool) :
    LineAnswer → Except Fault (Session σ ω)
  | .line text => .ok (s.feed (text.push '\n')).2
  | .endOfInput => .ok (s.closeLevel request.continuing interactive)
  | .failed message => .error ⟨.reported .io message none, none⟩

/-- What a run over a line source leaves behind: its result, the session, and the requests made. -/
structure RunReport (σ ω : Type) where
  result : Except Fault Unit
  session : Session σ ω
  requests : List LineRequest

/-- Leaves levels at the end of the input; each turn leaves one, so `levels` bounds their number. -/
def closeLevels (interactive : Bool) : Nat → Session σ ω → RunReport σ ω
  | 0, s => ⟨.ok (), s, []⟩
  | levels + 1, s =>
    match s.request? with
    | none => ⟨.ok (), s, []⟩
    | some (request, s) =>
      let rest := closeLevels interactive levels (s.closeLevel request.continuing interactive)
      { rest with requests := request :: rest.requests }

/-- Takes turns with the answers of a line source. -/
def runOver (interactive : Bool) : List LineAnswer → Session σ ω → RunReport σ ω
  | [], s => closeLevels interactive s.shell.stack.depth s
  | a :: answers, s =>
    match s.request? with
    | none => ⟨.ok (), s, []⟩
    | some (request, s) =>
      match s.answer request interactive a with
      | .error fault => ⟨.error fault, s, [request]⟩
      | .ok s =>
        let rest := runOver interactive answers s
        { rest with requests := request :: rest.requests }

/-- Reads from a line source until no level is left.  The end of input leaves the active level. -/
def run (s : Session σ ω) (source : LineSource) : RunReport σ ω :=
  runOver source.interactive source.answers s

end Session

end NestedShell
