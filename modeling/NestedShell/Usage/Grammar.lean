/-
  The usage of a command, compiled from its help text, and applied to a command line.

  Options are taken out of the command line first: a declared flag, `--key=value` and `--key value`
  for a declared key, several one-letter flags in one word; `--` ends the options.  The words that
  are left must match the pattern of the usage as a whole.

  * `Usage.ofHelp?` compiles a help text;
  * `Usage.splitOptions` takes the options out, `Usage.apply` binds a command line;
  * `Pattern.defaults` are the bindings before anything is given.
-/
import NestedShell.Usage.Line
import NestedShell.Usage.Help
import NestedShell.Usage.Arguments

namespace NestedShell

/-- The accepted forms of a command, and the pattern that they make up. -/
structure Usage where
  forms : List String
  pattern : Usage.Pattern

namespace Usage

/-- Adds the bindings of the names in a pattern before anything is given: no flag, no word, and an
    empty list for what is repeated anywhere. -/
def Pattern.addDefaults : Pattern → Bool → Bindings → Bindings
  | literal name, _, b | flag name, _, b => b.bindDefault name (.flag false)
  | argument name, repeated, b | valued name, repeated, b =>
    if repeated then b.insert name (.list []) else b.bindDefault name (.text none)
  | empty, _, b => b
  | seq p q, repeated, b | alt p q, repeated, b =>
    q.addDefaults repeated (p.addDefaults repeated b)
  | optional p, repeated, b | group p, repeated, b => p.addDefaults repeated b
  | oneOrMore p, _, b => p.addDefaults true b

/-- The bindings of a pattern before anything is given. -/
def Pattern.defaults (p : Pattern) : Bindings := p.addDefaults false ∅

/-- Compiles the usage section of a help text, if there is one. -/
def ofHelp? (help : String) : Except Fault (Option Usage) :=
  match usageLines? help with
  | none => .ok none
  | some [] => .error ⟨.emptyUsageSection, none⟩
  | some forms => (forms.mapM parseLine).map fun ps => some ⟨forms, .altAll ps⟩

variable (u : Usage)

/-- What a command line that matches none of the forms gets. -/
def mismatch : Fault := ⟨.usageMismatch u.forms, none⟩

/-- What is said about a command line that does not fit. -/
def message : String := u.mismatch.message

/-- Whether a word is made of several declared flags of one letter. -/
def isCluster (word : String) : Bool :=
  2 < word.utf8ByteSize && Text.startsWith "-" word && !Text.startsWith "--" word &&
    word.toList.tail.all fun c => u.pattern.flags.contains (String.ofList ['-', c])

/-- The declared option and its value, when a word is one written with an equals sign. -/
def assignment? (word : String) : Option (String × String) :=
  (Text.cutAt '=' word).filter fun kv => u.pattern.valuedOptions.contains kv.1

/-- Takes the options out of the words after the command's name. -/
def splitOptions : List String → Bindings → Except Fault (List String × Bindings)
  | [], b => .ok ([], b)
  | word :: rest, b =>
    if word = "--" then .ok (rest, b)
    else if u.pattern.flags.contains word then splitOptions rest (b.insert word (.flag true))
    else match u.assignment? word with
    | some (key, value) => splitOptions rest (b.bind key value)
    | none =>
      if u.pattern.valuedOptions.contains word then
        match rest with
        | [] => .error u.mismatch
        | value :: rest => splitOptions rest (b.bind word value)
      else if u.isCluster word then
        splitOptions rest (word.toList.tail.foldl
          (fun b c => b.insert (String.ofList ['-', c]) (.flag true)) b)
      else
        match splitOptions rest b with
        | .ok (positional, b) => .ok (word :: positional, b)
        | .error fault => .error fault

/-- Binds captures one after the other, so that a later one may replace an earlier one. -/
def bindCaptures (b : Bindings) (captures : List Capture) : Bindings :=
  captures.foldl (fun b c =>
    match c with
    | .word word => b.insert word (.flag true)
    | .value name text => b.bind name text) b

/-- Binds a command line, its first word being the name of the command. -/
def apply (argv : List String) : Except Fault Arguments :=
  match u.splitOptions argv.tail u.pattern.defaults with
  | .error fault => .error fault
  | .ok (positional, b) =>
    match u.pattern.match? positional with
    | some captures => .ok ⟨argv, bindCaptures b captures⟩
    | none => .error u.mismatch

end Usage

end NestedShell
