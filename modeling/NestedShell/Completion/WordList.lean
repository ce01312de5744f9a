/-
  Word lists: the candidates for a word, in order and each of them once.

  * `WordList.ofList` sorts words, `candidates` are those with a given start;
  * a `Snapshot` is what can be completed while a level is active.
-/
import NestedShell.Text.Cut
import Std.Data.TreeMap
import Std.Data.TreeMap.Lemmas

namespace NestedShell

/-- Words in order, each of them once. -/
structure WordList where
  words : List String
deriving DecidableEq, Repr

namespace WordList

/-- Words in order, with neighbours that are equal taken once. -/
def sortedOnce (words : List String) : List String :=
  (words.foldl (fun t w => t.insert w ()) (∅ : Std.TreeMap String Unit)).keys

/-- The list of some words, in any order. -/
def ofList (words : List String) : WordList := ⟨sortedOnce words⟩

/-- The words that start with a text. -/
def candidates (l : WordList) (start : String) : List String :=
  l.words.filter (Text.startsWith start)

end WordList

/-- What can be completed while a level is active: commands, variables, and for some commands their
    arguments. -/
structure Snapshot where
  commands : List String := []
  vars : List String := []
  arguments : Std.TreeMap String (List String) := ∅

/-- The arguments of a command that start with a text. -/
def Snapshot.argumentsFor (s : Snapshot) (command start : String) : List String :=
  (s.arguments.getD command []).filter (Text.startsWith start)

end NestedShell
