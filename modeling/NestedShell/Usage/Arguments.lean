/-
  The arguments of a command, bound to the names that its usage gives them.

  * a `Binding` is what a name is bound to: whether a flag was given, a single word, or all words
    of a repeated argument;
  * `Arguments` are a command line and its bindings; `get?`, `list` and `flag` read them.
-/
import Std.Data.TreeMap
import Std.Data.TreeMap.Lemmas

namespace NestedShell.Usage

/-- What a name is bound to. -/
inductive Binding where
  | flag (given : Bool)
  | text (word : Option String)
  | list (words : List String)
deriving DecidableEq, Repr

/-- What the names of a usage are bound to. -/
abbrev Bindings := Std.TreeMap String Binding

/-- Adds a word: to the others of a repeated argument, or instead of the word that was there. -/
def Bindings.bind (b : Bindings) (name word : String) : Bindings :=
  match b[name]? with
  | some (.list words) => b.insert name (.list (words ++ [word]))
  | _ => b.insert name (.text (some word))

/-- Binds a name that is not bound yet. -/
def Bindings.bindDefault (b : Bindings) (name : String) (value : Binding) : Bindings :=
  if b.contains name then b else b.insert name value

/-- A command line and its bindings. -/
structure Arguments where
  /-- the name of the command and the words after it -/
  argv : List String
  values : Bindings := ∅

namespace Arguments

/-- The arguments of a command without a usage. -/
def bare (argv : List String) : Arguments := { argv }

/-- The name of the command, the first word of the line. -/
def name (a : Arguments) : String := a.argv.headD ""

/-- The words after the name of the command, as they were given. -/
def rest (a : Arguments) : List String := a.argv.tail

/-- What a name is bound to. -/
def value? (a : Arguments) (key : String) : Option Binding := a.values[key]?

/-- The word bound to a name, the first one of several. -/
def get? (a : Arguments) (key : String) : Option String :=
  match a.value? key with
  | some (.text word) => word
  | some (.list words) => words.head?
  | _ => none

/-- The words that a name is bound to; a single one counts as a list. -/
def list (a : Arguments) (key : String) : List String :=
  match a.value? key with
  | some (.list words) => words
  | some (.text (some word)) => [word]
  | _ => []

/-- Whether a name is bound to a flag that was given. -/
def flag (a : Arguments) (key : String) : Bool :=
  a.value? key = some (.flag true)

end Arguments

end NestedShell.Usage
