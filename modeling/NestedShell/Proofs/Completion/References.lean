/-
  Completed references to variables.

  Behind a dollar sign the names of all variables are offered, written as the reference was begun.
  What is offered reads the variable iff its name can be written like that.  Nothing keeps a
  variable from having another name: then the text that is offered stands for something else.

  * `Reads`: how a reference is read; `complete_references`: so is all that is offered behind a
    dollar sign;
  * `complete_spaced`: a name with a blank, offered without braces.
-/
import NestedShell.Level
import NestedShell.Proofs.Completion.Replacements
import NestedShell.Proofs.Statement.References

namespace NestedShell.LineAssistant

open NestedShell.Statement

/-- A word of the source of references is written as a reference. -/
theorem write_references (braces : Bool) (name : String) :
    (Source.references braces).write name = reference braces name := by
  rw [← String.toList_inj]
  cases braces <;> simp [Source.write, Source.opening, Source.closing, reference, braced, unbraced]

/-- The source behind a dollar sign. -/
theorem Source.Expected.eq_references {front typed : String} {source : Source}
    (h : source.Expected front typed) (hdollar : Text.startsWith "$" typed = true) :
    source = references (Text.startsWith "$\x7b" typed) := by
  cases h with
  | braced hbrace => rw [hbrace]
  | bare _ hbare => rw [hbare]
  | command hword | argument hword =>
    rw [hdollar] at hword
    cases hword

/-- How the reference to a variable that is set is read between double quotes. -/
structure Reads (env : Environment) (braces : Bool) (name value : String) : Prop where
  get? : env.get? name = some value
  /-- A name that can be written like this is read as the value. -/
  value : Referable braces name →
    oneStatement? (inQuotes (reference braces name)) env.lookup = .ok [value]
  /-- Otherwise it makes no difference what the value is. -/
  unread : ¬ Referable braces name → ∀ other,
    oneStatement? (inQuotes (reference braces name)) (env.set name other).lookup =
      oneStatement? (inQuotes (reference braces name)) env.lookup

theorem reads_of_get? {env : Environment} {name value : String} (h : env.get? name = some value)
    (braces : Bool) : Reads env braces name value where
  get? := h
  value hname := by rw [oneStatement?_reference hname, Environment.lookup, h, Option.getD_some]
  unread hname other := by
    refine oneStatement?_unread hname fun name' hne => ?_
    rw [Environment.lookup, Environment.get?_set, if_neg hne.symm, Environment.lookup]

variable {σ : Type}

/-- **A completed reference reads its variable** if the name can be written in it, and else has
    nothing to do with it: all that is offered behind a dollar sign, at every level, for every line
    and cursor. -/
theorem complete_references (level : Level σ) (a : LineAssistant)
    (ha : a.snapshot = level.snapshot) {line : String} {pos : Nat} (cursor : Cursor line pos)
    (hdollar : Text.startsWith "$" cursor.typed = true) :
    ∀ r ∈ (a.complete line pos).replacements, ∃ name value,
      r = reference (Text.startsWith "$\x7b" cursor.typed) name ∧
        Reads level.env (Text.startsWith "$\x7b" cursor.typed) name value := by
  obtain ⟨source, hcompletes⟩ := a.exists_completes cursor
  obtain ⟨part, -, hoffered⟩ := hcompletes.replacements_eq
  obtain rfl := hcompletes.expected.eq_references hdollar
  intro r hr
  rw [hoffered, ha] at hr
  obtain ⟨name, hname, rfl⟩ := List.mem_map.1 hr
  have hmem : name ∈ level.env.names := (List.mem_filter.1 hname).1
  obtain ⟨value, hvalue⟩ := Option.isSome_iff_exists.1 (Environment.mem_names.1 hmem)
  exact ⟨name, value, write_references _ name, reads_of_get? hvalue _⟩

/-- A level with variables. -/
def withVariables (vars : List (String × String)) : Level Unit where
  commands := ()
  env := .ofList vars
  aliases := {}
  depth := 1

/-- The start of a name in braces, behind a character of several bytes. -/
def bracedCursor : Cursor "é $\x7bH" 6 where
  front := "é "
  typed := "$\x7bH"
  rest := ""
  line_eq := rfl
  pos_eq := by decide +kernel
  finalRun :=
    { eq_append := rfl
      all := List.all_eq_true.1 (by decide +kernel)
      longest := by
        intro c hc
        obtain rfl : ' ' = c := by simpa using hc
        decide }

/-- Three names go on with it, and two of them can be written in braces. -/
theorem complete_braced :
    let level := withVariables [("HOME", "/h"), ("HO ST", "h"), ("H\x7d", "?")]
    let a : LineAssistant := { snapshot := level.snapshot }
    a.snapshot = level.snapshot ∧ Text.startsWith "$" bracedCursor.typed = true ∧
      (a.complete "é $\x7bH" 6).replacements =
        ["$\x7bHO ST\x7d", "$\x7bHOME\x7d", "$\x7bH\x7d\x7d"] ∧
      ∀ r ∈ (a.complete "é $\x7bH" 6).replacements, ∃ name value,
        r = reference (Text.startsWith "$\x7b" bracedCursor.typed) name ∧
          Reads level.env (Text.startsWith "$\x7b" bracedCursor.typed) name value := by
  intro level a
  have hdollar : Text.startsWith "$" bracedCursor.typed = true := by decide +kernel
  exact ⟨rfl, hdollar, by decide +kernel, complete_references level a rfl bracedCursor hdollar⟩

/-- A name with a blank is offered without braces, and then **another variable is read**. -/
theorem complete_spaced :
    let level := withVariables [("a b", "1")]
    let a : LineAssistant := { snapshot := level.snapshot }
    (a.complete "echo $a" 7).replacements = ["$a b"] ∧ level.env.get? "a b" = some "1" ∧
      oneStatement? (inQuotes "$a b") level.env.lookup = .ok [" b"] ∧
      oneStatement? (inQuotes "$a b") level.env.lookup ≠ .ok ["1"] := by
  intro level a
  have hread : oneStatement? (inQuotes "$a b") level.env.lookup = .ok [" b"] := by decide +kernel
  refine ⟨by decide +kernel, by decide +kernel, hread, ?_⟩
  rw [hread]
  simp

end NestedShell.LineAssistant
