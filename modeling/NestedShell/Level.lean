/-
  Levels and the stack that nests them.

  A level runs one command set, with its own variables, aliases and completions.  A new level starts
  with copies of the variables and aliases of the one below.

  * a `Level` is one of them, `Level.snapshot` is what can be completed in it;
  * a `Stack` has the active level on top, and the value that the last level left behind.
-/
import NestedShell.Builtins
import NestedShell.Completion.WordList

namespace NestedShell

variable {σ ω : Type}

/-- A level: a command set with the variables, the aliases and the completions of its own. -/
structure Level (σ : Type) where
  commands : σ
  env : Environment
  aliases : AliasTable
  /-- one for the level at the bottom -/
  depth : Nat
  /-- the candidates for the first word, under `commands`, and for the arguments of commands -/
  scopes : Std.TreeMap String WordList := ∅

namespace Level

/-- The scope that completes the first word of a statement. -/
def commandScope : String := "commands"

/-- Installs a scope, instead of one of the same name. -/
def addScope (l : Level σ) (name : String) (scope : WordList) : Level σ :=
  { l with scopes := l.scopes.insert name scope }

/-- Removes a scope; without one of that name nothing changes. -/
def removeScope (l : Level σ) (name : String) : Level σ :=
  { l with scopes := l.scopes.erase name }

/-- A level whose scopes complete the commands that can be used in it. -/
def new [CommandSet σ ω] (commands : σ) (env : Environment) (aliases : AliasTable) (depth : Nat) :
    Level σ :=
  let names := WordList.ofList ((CommandSet.commands commands ++ builtins).map (·.name))
  (({ commands, env, aliases, depth } : Level σ).addScope commandScope names).addScope "help" names

/-- What can be completed while the level is active. -/
def snapshot (l : Level σ) : Snapshot where
  commands :=
    let own := (l.scopes[commandScope]?).elim [] (·.candidates "")
    WordList.sortedOnce (own ++ l.aliases.names)
  vars := l.env.names
  arguments := (l.scopes.erase commandScope).map fun _ scope => scope.candidates ""

end Level

/-- The levels, the active one first, and the value of the last level that was left. -/
structure Stack (σ : Type) where
  levels : List (Level σ) := []
  exitValue : Option Value := none

namespace Stack

/-- How many levels there are. -/
def depth (s : Stack σ) : Nat := s.levels.length

/-- The active level. -/
def top? (s : Stack σ) : Option (Level σ) := s.levels.head?

/-- Whether all levels have been left. -/
def isEmpty (s : Stack σ) : Bool := s.levels.isEmpty

/-- Changes the active level. -/
def onTop (f : Level σ → Level σ) (s : Stack σ) : Stack σ :=
  { s with levels := s.levels.modifyHead f }

end Stack

end NestedShell
