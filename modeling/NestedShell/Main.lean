/-
  The shell as a program: it reads its surroundings, runs a session, and writes what the session
  writes.  Whatever it decides is decided in `NestedShell.CommandLine` and `NestedShell.Session`.
-/
import NestedShell.CommandLine

namespace NestedShell.Program

open CommandLine

/-- The variables that the process was started with. -/
def processEnvironment : IO Environment := do
  let bytes ← try IO.FS.readBinFile "/proc/self/environ" catch _ => pure ByteArray.empty
  let text := (String.fromUTF8? bytes).getD ""
  return .ofList ((Text.pieces (· == '\x00') text.toList).filterMap fun entry =>
    Text.cutAt '=' (String.ofList entry))

/-- The facts about the machine. -/
def host (env : Environment) : IO Template.Host := do
  let name ← try IO.FS.readFile "/proc/sys/kernel/hostname" catch _ => pure "localhost"
  let directory ← try (·.toString) <$> IO.currentDir catch _ => pure ""
  return { name := Text.trim name, user := (env.get? "USER").getD "", directory }

/-- The content of a file, or why there is none. -/
def readFile (path : String) : IO FileContent := do
  try
    return .text (← IO.FS.readFile path)
  catch
    | .noFileOrDirectory .. => return .missing
    | e => return .failed e.toString

/-- Writes what a session has written since the last time, after the time that it asked to wait. -/
def flush (quiet : Bool) (s : Session Playground World) : IO (Session Playground World) := do
  let console := s.shell.console
  IO.sleep (UInt32.ofNat (s.shell.world.waiting / 1000000))
  unless quiet do
    for entry in console.log do
      IO.eprintln entry.line
  IO.print console.out.written
  (← IO.getStdout).flush
  IO.eprint console.err.written
  return { s with shell.console := console.flushed, shell.world.waiting := 0 }

/-- Takes turns with the standard input until no level is left. -/
partial def loop (quiet : Bool) (stdin : IO.FS.Stream) (s : Session Playground World) :
    IO (Session Playground World) := do
  match s.request? with
  | none => return s
  | some (request, s) =>
    let line ← stdin.getLine
    let answer := match LineSource.scriptLines line with
      | text :: _ => LineAnswer.line text
      | [] => .endOfInput
    match s.answer request false answer with
    | .ok s => loop quiet stdin (← flush quiet s)
    | .error _ => return s

/-- Runs the program with its arguments and gives the exit code. -/
def run (args : List String) : IO UInt32 := do
  match parse {} args with
  | .start o =>
    let env ← processEnvironment
    let quiet := env.get? "NESTSH_LOG" = some "off"
    let file ← match startupPath? env with
      | some path => readFile path
      | none => pure .missing
    let (settings, notes, err) := settings o env fun _ => file
    IO.eprint err
    let session := (start o env settings (← host env)).onConsole fun k =>
      { k with log := notes ++ k.log }
    match o.command with
    | some text =>
      let r := runText (← flush quiet session) text
      IO.print r.out
      IO.eprint r.err
      return UInt32.ofNat r.code
    | none =>
      let session ← loop quiet (← IO.getStdin) (← flush quiet session)
      return UInt32.ofNat session.exitCode
  | request =>
    let r := request.report
    IO.print r.out
    IO.eprint r.err
    return UInt32.ofNat r.code

end NestedShell.Program

/-- The entry point. -/
def main (args : List String) : IO UInt32 := NestedShell.Program.run args
