/-
  Variables.  A lookup is all that reading a statement or a template needs to know of them; an
  environment is the table of variables of one level.

  * `Lookup` and `Environment` are the two views, `Environment.lookup` joins them;
  * `Environment.int?` reads a variable as a 64-bit integer, `shellLevel` reads the nesting depth;
  * the names with a meaning of their own: `PS1`, `PS2`, `SHLVL`, `?` and `_`.
-/
import Std.Data.TreeMap
import Std.Data.TreeMap.Lemmas
import NestedShell.Text.Blank
import NestedShell.Number.Integer

namespace NestedShell

/-- What a variable is worth, if it is set. -/
abbrev Lookup := String → Option String

/-- Nothing is set. -/
def noVariables : Lookup := fun _ => none

/-- The template of the primary prompt. -/
def primaryPrompt : String := "PS1"

/-- The template of the prompt for a continued statement. -/
def secondaryPrompt : String := "PS2"

/-- The nesting depth of the active level. -/
def levelVariable : String := "SHLVL"

/-- The numeric status of the last command. -/
def statusVariable : String := "?"

/-- The text of the value that the last command returned. -/
def lastVariable : String := "_"

/-- The variables of one level, ordered by name. -/
structure Environment where
  vars : Std.TreeMap String String := ∅

namespace Environment

/-- The environment without variables. -/
def empty : Environment := {}

/-- The value of a variable, if it is set. -/
def get? (env : Environment) (name : String) : Option String :=
  env.vars[name]?

/-- An environment, as statements and templates look into it. -/
def lookup (env : Environment) : Lookup := env.get?

/-- Whether a variable is set. -/
def contains (env : Environment) (name : String) : Bool :=
  env.vars.contains name

/-- Sets a variable, in place of an earlier value. -/
def set (env : Environment) (name value : String) : Environment :=
  ⟨env.vars.insert name value⟩

/-- Sets a variable that is not set yet. -/
def setDefault (env : Environment) (name value : String) : Environment :=
  if env.contains name then env else env.set name value

/-- Removes a variable; without one of that name nothing changes. -/
def erase (env : Environment) (name : String) : Environment :=
  ⟨env.vars.erase name⟩

/-- The names of the variables, in order. -/
def names (env : Environment) : List String := env.vars.keys

/-- The variables with their values, in the order of their names. -/
def toList (env : Environment) : List (String × String) := env.vars.toList

/-- The environment of a list of variables; a later entry replaces an earlier one. -/
def ofList (vars : List (String × String)) : Environment :=
  vars.foldl (fun env v => env.set v.1 v.2) empty

/-- How many variables there are. -/
def size (env : Environment) : Nat := env.vars.size

/-- The value of a variable as an integer, when it is one between blanks. -/
def int? (env : Environment) (name : String) : Option Int64 :=
  (env.get? name).bind fun value => Number.int64? (Text.trim value)

/-- The value of `SHLVL`, zero when it is not set or not numeric. -/
def shellLevel (env : Environment) : Int64 :=
  (env.int? levelVariable).getD 0

/-! ## Reading after writing -/

theorem get?_set (env : Environment) (name value other : String) :
    (env.set name value).get? other = if name = other then some value else env.get? other := by
  simp [set, get?, Std.TreeMap.getElem?_insert]

theorem get?_erase (env : Environment) (name other : String) :
    (env.erase name).get? other = if name = other then none else env.get? other := by
  simp [erase, get?, Std.TreeMap.getElem?_erase]

theorem mem_names {env : Environment} {name : String} :
    name ∈ env.names ↔ (env.get? name).isSome = true := by
  rw [names, Std.TreeMap.mem_keys, Std.TreeMap.mem_iff_isSome_getElem?, get?]

end Environment

end NestedShell
