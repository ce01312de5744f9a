/-
  Aliases.  An alias is a name for some words; a statement that starts with the name starts with
  those words instead.  The first of them may be an alias again.

  * an `AliasTable` gives names to words and says what happens on a cycle; every entry has a name
    and a first word, since `set` refuses all others;
  * `AliasTable.expand` replaces the first word of a statement until it is no alias, or until a
    replacement would start with a word that another one started with before.
-/
import NestedShell.Statement.Quoting
import NestedShell.Text.Cut
import NestedShell.Fault
import Std.Data.TreeMap
import Std.Data.TreeMap.Lemmas

namespace NestedShell

/-- What happens when the expansion of an alias comes back to where it was. -/
inductive CyclePolicy where
  /-- the words reached so far are taken -/
  | stop
  /-- it is a fault -/
  | reject
deriving DecidableEq, Repr

/-- The policy of a name; case and blanks around it do not matter. -/
def CyclePolicy.ofName? (text : String) : Except Fault CyclePolicy :=
  match Text.lowerAscii (Text.trim text) with
  | "stop" => .ok stop
  | "reject" | "error" => .ok reject
  | other => .error ⟨.unknownCyclePolicy other, none⟩

/-- Aliases, ordered by name, and the policy for cycles among them. -/
structure AliasTable where
  entries : Std.TreeMap String (List String) := ∅
  policy : CyclePolicy := .stop

namespace AliasTable

/-- The words that an alias stands for, if there is one of that name. -/
def get? (t : AliasTable) (name : String) : Option (List String) := t.entries[name]?

/-- The names of the aliases, in order. -/
def names (t : AliasTable) : List String := t.entries.keys

/-- The aliases with their words, in the order of their names. -/
def toList (t : AliasTable) : List (String × List String) := t.entries.toList

/-- Whether there are no aliases. -/
def isEmpty (t : AliasTable) : Bool := t.entries.isEmpty

/-- Defines an alias.  It needs a name, and words of which the first one is not empty. -/
def set (t : AliasTable) (name : String) (words : List String) : Except Fault AliasTable :=
  if name = "" then .error ⟨.emptyAliasName, none⟩
  else if words.headD "" = "" then .error ⟨.emptyReplacement name, none⟩
  else .ok { t with entries := t.entries.insert name words }

/-- Removes an alias; without one of that name nothing changes. -/
def erase (t : AliasTable) (name : String) : AliasTable :=
  { t with entries := t.entries.erase name }

/-- An alias in the form in which it can be defined. -/
def describe? (t : AliasTable) (name : String) : Option String :=
  (t.get? name).map fun words =>
    name ++ "=" ++ Statement.quote (" ".intercalate (words.map Statement.quote))

/-! ## Expansion -/

/-- Replaces the first word of a statement; `seen` are the first words of the replacements so far,
    the latest one first.  Each of them is substituted at most once, so there are no more rounds
    than entries: `rounds` bounds their number. -/
def expandFrom (t : AliasTable) : Nat → List String → List String → Except Fault (List String)
  | 0, _, argv => .ok argv
  | rounds + 1, seen, argv =>
    match argv with
    | [] => .ok []
    | name :: args =>
      match t.get? name with
      | none => .ok (name :: args)
      | some words =>
        let head := words.headD ""
        if head ∈ seen then
          if t.policy = .reject ∧ head ≠ name then
            .error ⟨.aliasLoop seen.reverse, none⟩
          else .ok (name :: args)
        else expandFrom t rounds (head :: seen) (words ++ args)

/-- Replaces the first word of a statement as long as it is an alias. -/
def expand (t : AliasTable) (argv : List String) : Except Fault (List String) :=
  t.expandFrom (t.entries.size + 1) [] argv

/-! ## Reading after writing -/

theorem get?_of_set {t t' : AliasTable} {name : String} {words : List String}
    (h : t.set name words = .ok t') (other : String) :
    t'.get? other = if name = other then some words else t.get? other := by
  unfold set at h
  split at h
  · exact absurd h (by simp)
  · split at h
    · exact absurd h (by simp)
    · cases h
      simp [get?, Std.TreeMap.getElem?_insert]

theorem get?_erase (t : AliasTable) (name other : String) :
    (t.erase name).get? other = if name = other then none else t.get? other := by
  simp [erase, get?, Std.TreeMap.getElem?_erase]

theorem mem_names {t : AliasTable} {name : String} :
    name ∈ t.names ↔ (t.get? name).isSome = true := by
  rw [names, Std.TreeMap.mem_keys, Std.TreeMap.mem_iff_isSome_getElem?, get?]

end AliasTable

end NestedShell
