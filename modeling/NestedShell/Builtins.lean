/-
  The commands that every level has: help, aliases, variables, output, and leaving the level.

  * `builtins` lists them, `Builtin.run` runs one of them;
  * `Builtin.definition?` reads the arguments of `alias` as a definition.
-/
import NestedShell.Command
import NestedShell.Statement.Split

namespace NestedShell

/-- The commands that every level has. -/
def builtins : List CommandInfo := [
  ⟨"help",
    "Print help on the given commands, or list all commands.

        Usage:
            help [<name>...]
        "⟩,
  ⟨"alias",
    "List, show or define command aliases.

        A definition is name=value; spaces around the = are allowed. The
        value is split into words like a command line.

        Usage:
            alias [<definition>...]
        "⟩,
  ⟨"unalias",
    "Remove a command alias.

        Usage:
            unalias <name>
        "⟩,
  ⟨"exit",
    "Leave this level, handing an optional value to the one below.

        Usage:
            exit [<value>]
        "⟩,
  ⟨"set",
    "List variables, show one, or set it to the given words.

        Usage:
            set [<name> [<value>...]]
        "⟩,
  ⟨"unset",
    "Remove variables.

        Usage:
            unset <name>...
        "⟩,
  ⟨"printenv",
    "Print all variables, or the value of one.

        Usage:
            printenv [<name>]
        "⟩,
  ⟨"echo",
    "Print the arguments.

        Percent codes are expanded: %%\x7bNAME\x7d prints a variable and
        %%g...%%N prints in green.

        Usage:
            echo [<text>...]
        "⟩]

/-- Whether every level has a command of this name. -/
def isBuiltin (name : String) : Bool := builtins.any (·.name == name)

namespace Builtin

open Handler

variable {σ ω : Type}

/-- A name and its summary; the name is filled up to a width in characters. -/
def listingLine (width : Nat) (info : CommandInfo) : String :=
  info.name.pushn ' ' (width - info.name.length) ++ "  " ++ info.summary ++ "\n"

/-- Lists commands, with room for the longest name in bytes. -/
def listing (catalog : List CommandInfo) : String :=
  let width := (catalog.map fun info => info.name.utf8ByteSize).max?.getD 0
  String.join (catalog.map (listingLine width))

/-- Explains commands, and answers whether one of them is not known. -/
def explain (inv : Invocation) : List String → Handler σ ω Bool
  | [] => return false
  | name :: names => do
    match inv.find? name with
    | some info =>
      printDoc info.help
      explain inv names
    | none =>
      error s!"help: no such command: {name}"
      let _ ← explain inv names
      return true

/-- Lists the commands, or explains some. -/
def showHelp (inv : Invocation) : Handler σ ω (Outcome σ) := do
  let names := inv.args.list "<name>"
  if names = [] then
    write (listing inv.catalog)
    return .done
  let failed ← explain inv names
  return .ofStatus (if failed then 1 else 0)

/-- Prints lines, one after the other. -/
def printAll : List String → Handler σ ω Unit
  | [] => return
  | line :: lines => do
    print line
    printAll lines

/-- The name, the value and the other words of a definition: `name=value words` or
    `name =value words`. -/
def definitionParts? : List String → Option (String × String × List String)
  | [] => none
  | first :: rest =>
    match Text.cutAt '=' first with
    | some (name, value) => some (name, value, rest)
    | none =>
      match rest with
      | [] => none
      | second :: rest => (Text.strip? "=" second).map fun value => (first, value, rest)

/-- The name and the words of a definition, if there is one.  The value is split into words. -/
def definition? (words : List String) : Except Fault (Option (String × List String)) :=
  match definitionParts? words with
  | none => .ok none
  | some (name, value, rest) =>
    (Statement.words? value).map fun ws => some (Text.trim name, ws ++ rest)

/-- Lists, shows or defines aliases. -/
def editAliases (inv : Invocation) : Handler σ ω (Outcome σ) := do
  let words := inv.args.list "<definition>"
  let aliases := (← get).aliases
  if words = [] then
    printAll (aliases.names.filterMap aliases.describe?)
    return .done
  match ← definition? words with
  | some (name, replacement) =>
    let aliases ← aliases.set name replacement
    modify fun d => { d with aliases }
    return .done
  | none =>
    match words with
    | [name] =>
      match aliases.describe? name with
      | some line =>
        print line
        return .done
      | none =>
        error s!"alias: {name}: not found"
        return .ofStatus 1
    | _ => fail ⟨.notDefinition (" ".intercalate words), none⟩

/-- `unalias`: removes an alias; the status is one when there is none of that name. -/
def removeAlias (inv : Invocation) : Handler σ ω (Outcome σ) := do
  let name := (inv.args.get? "<name>").getD ""
  let aliases := (← get).aliases
  if (aliases.get? name).isSome then
    modify fun d => { d with aliases := aliases.erase name }
    return .done
  error s!"unalias: {name}: not found"
  return .ofStatus 1

/-- `exit`: leaves the active level, with the value that is given. -/
def leaveLevel (inv : Invocation) : Handler σ ω (Outcome σ) :=
  return .leave ((inv.args.get? "<value>").map Value.parse)

/-- Prints the value of a variable; the status is one when it is not set. -/
def showVariable (name : String) : Handler σ ω (Outcome σ) := do
  match (← get).env.get? name with
  | some value =>
    print value
    return .done
  | none => return .ofStatus 1

/-- Lists variables, shows one, or sets it. -/
def editVariables (inv : Invocation) : Handler σ ω (Outcome σ) := do
  match inv.args.get? "<name>" with
  | none =>
    printAll ((← get).env.toList.map fun v => v.1 ++ "=" ++ Statement.quote v.2)
    return .done
  | some name =>
    let values := inv.args.list "<value>"
    if values = [] then showVariable name
    else
      onEnv (·.set name (" ".intercalate values))
      return .done

/-- `unset`: removes variables; those that are not set do not matter. -/
def removeVariables (inv : Invocation) : Handler σ ω (Outcome σ) := do
  onEnv fun env => (inv.args.list "<name>").foldl Environment.erase env
  return .done

/-- `printenv`: prints the value of one variable, or all variables with their values. -/
def printVariables (inv : Invocation) : Handler σ ω (Outcome σ) := do
  match inv.args.get? "<name>" with
  | some name => showVariable name
  | none =>
    printAll ((← get).env.toList.map fun v => v.1 ++ "=" ++ v.2)
    return .done

/-- Writes the arguments, expanded as a template. -/
def printWords (inv : Invocation) : Handler σ ω (Outcome σ) := do
  printf (" ".intercalate (inv.args.list "<text>") ++ "\n")
  return .done

/-- Runs a builtin by its name. -/
def run (inv : Invocation) : Handler σ ω (Outcome σ) :=
  match inv.name with
  | "help" => showHelp inv
  | "alias" => editAliases inv
  | "unalias" => removeAlias inv
  | "exit" => leaveLevel inv
  | "set" => editVariables inv
  | "unset" => removeVariables inv
  | "printenv" => printVariables inv
  | "echo" => printWords inv
  | other => fail ⟨.notBuiltin other, none⟩

end Builtin

end NestedShell
