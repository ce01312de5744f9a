/-
  The names in a usage.

  The text of a word of a usage line decides what the word stands for.  So a name means the same
  wherever it stands in a compiled usage, except that an option may be declared both with and
  without a value.

  * `Pattern.literals` and `Pattern.arguments` are the names that words are captured for,
    `Pattern.repeatedArguments` the arguments that are repeated anywhere;
  * `Pattern.flagNames` and `Pattern.valueNames` are all names, by what can be bound to them,
    `Pattern.repeatedNames` those that may be bound to several words;
  * `Pattern.Classified`: every name in a pattern has the text of its class;
  * `Usage.DescribedBy`, `ofHelp?_eq_ok_iff`: what it takes for a help text to compile to a usage;
  * `Usage.classified`: the names of a compiled usage have the texts of their classes;
  * under `Pattern.Classified`, no name is in two classes, apart from the options.
-/
import Mathlib.Data.List.Forall2
import NestedShell.Usage.Grammar
import NestedShell.Proofs.Usage.Printing

namespace NestedShell.Usage

/-! ## Elements -/

/-- A word that starts with two dashes is an option. -/
theorem elementOfWord_dashes {w : String} (h : Text.startsWith "--" w = true) :
    elementOfWord w = .flag w ∨ ∃ key, elementOfWord w = .valued key := by
  obtain ⟨rest, rfl⟩ := Text.startsWith_iff.1 h
  have hangle : Text.startsWith "<" ("--" ++ rest) = false := by
    simp [Text.startsWith, List.isPrefixOf]
  have hdash : Text.startsWith "-" ("--" ++ rest) = true := by
    simp [Text.startsWith, List.isPrefixOf]
  have hsize : ("--" ++ rest).utf8ByteSize = 2 + rest.utf8ByteSize := by
    rw [String.utf8ByteSize_append]
    rfl
  rw [elementOfWord, if_neg (by simp [hangle])]
  split
  · split
    · exact .inr ⟨_, rfl⟩
    · exact .inl rfl
  · rename_i hshort
    have hlength : ("--" ++ rest).utf8ByteSize = 2 := by
      have := not_and.1 hshort h
      omega
    exact .inl (if_pos ⟨hdash, hlength⟩)

namespace Pattern

/-! ## Names -/

/-- The literal words of a pattern. -/
def literals : Pattern → List String
  | literal word => [word]
  | argument _ | flag _ | valued _ | empty => []
  | seq p q | alt p q => p.literals ++ q.literals
  | optional p | group p | oneOrMore p => p.literals

/-- The names that words are bound to. -/
def arguments : Pattern → List String
  | argument name => [name]
  | literal _ | flag _ | valued _ | empty => []
  | seq p q | alt p q => p.arguments ++ q.arguments
  | optional p | group p | oneOrMore p => p.arguments

/-- The names of arguments that are repeated somewhere. -/
def repeatedArguments : Pattern → List String
  | literal _ | argument _ | flag _ | valued _ | empty => []
  | seq p q | alt p q => p.repeatedArguments ++ q.repeatedArguments
  | optional p | group p => p.repeatedArguments
  | oneOrMore p => p.arguments

theorem repeatedArguments_subset {p : Pattern} : p.repeatedArguments ⊆ p.arguments := by
  induction p with
  | seq p q ihp ihq | alt p q ihp ihq =>
    intro name h
    exact List.mem_append.2 ((List.mem_append.1 h).imp (ihp ·) (ihq ·))
  | optional p ih | group p ih => exact ih
  | oneOrMore p => exact List.Subset.refl _
  | _ => exact List.nil_subset _

/-- The names that say whether they were given. -/
def flagNames : Pattern → List String
  | literal name | flag name => [name]
  | argument _ | valued _ | empty => []
  | seq p q | alt p q => p.flagNames ++ q.flagNames
  | optional p | group p | oneOrMore p => p.flagNames

/-- The names that words are given for. -/
def valueNames : Pattern → List String
  | argument name | valued name => [name]
  | literal _ | flag _ | empty => []
  | seq p q | alt p q => p.valueNames ++ q.valueNames
  | optional p | group p | oneOrMore p => p.valueNames

/-- The names that words are given for and that are repeated somewhere. -/
def repeatedNames : Pattern → List String
  | literal _ | argument _ | flag _ | valued _ | empty => []
  | seq p q | alt p q => p.repeatedNames ++ q.repeatedNames
  | optional p | group p => p.repeatedNames
  | oneOrMore p => p.valueNames

theorem mem_flagNames {p : Pattern} {name : String} :
    name ∈ p.flagNames ↔ name ∈ p.literals ∨ name ∈ p.flags := by
  induction p with
  | literal | flag | argument | valued | empty => simp [flagNames, literals, flags]
  | seq p q ihp ihq | alt p q ihp ihq =>
    simp only [flagNames, literals, flags, List.mem_append, ihp, ihq, or_or_or_comm]
  | optional p ih | group p ih | oneOrMore p ih => exact ih

theorem mem_valueNames {p : Pattern} {name : String} :
    name ∈ p.valueNames ↔ name ∈ p.arguments ∨ name ∈ p.valuedOptions := by
  induction p with
  | literal | flag | argument | valued | empty => simp [valueNames, arguments, valuedOptions]
  | seq p q ihp ihq | alt p q ihp ihq =>
    simp only [valueNames, arguments, valuedOptions, List.mem_append, ihp, ihq, or_or_or_comm]
  | optional p ih | group p ih | oneOrMore p ih => exact ih

/-- A name that is no option is repeated as an argument. -/
theorem mem_repeatedNames {p : Pattern} {name : String} (h : name ∉ p.valuedOptions) :
    name ∈ p.repeatedNames ↔ name ∈ p.repeatedArguments := by
  induction p with
  | literal | flag | argument | valued | empty => exact Iff.rfl
  | seq p q ihp ihq | alt p q ihp ihq =>
    simp only [valuedOptions, List.mem_append, not_or] at h
    simp only [repeatedNames, repeatedArguments, List.mem_append, ihp h.1, ihq h.2]
  | optional p ih | group p ih => exact ih h
  | oneOrMore p => exact mem_valueNames.trans (or_iff_left h)

theorem repeatedNames_subset {p : Pattern} : p.repeatedNames ⊆ p.valueNames := by
  induction p with
  | seq p q ihp ihq | alt p q ihp ihq =>
    intro name h
    exact List.mem_append.2 ((List.mem_append.1 h).imp (ihp ·) (ihq ·))
  | optional p ih | group p ih => exact ih
  | oneOrMore p => exact List.Subset.refl _
  | _ => exact List.nil_subset _

/-! ## Classes -/

/-- Every name is written as what it stands for: a literal word, an argument or a flag as itself,
    and an option with a value as what stands before the equals sign. -/
structure Classified (p : Pattern) : Prop where
  literal : ∀ word ∈ p.literals, elementOfWord word = .literal word
  argument : ∀ name ∈ p.arguments, elementOfWord name = .argument name
  flag : ∀ name ∈ p.flags, elementOfWord name = .flag name
  valued : ∀ key ∈ p.valuedOptions, Text.startsWith "--" key = true ∧ '=' ∉ key.toList

namespace Classified

theorem empty : Classified .empty := by constructor <;> exact nofun

theorem seq {p q : Pattern} (hp : p.Classified) (hq : q.Classified) : (p.seq q).Classified where
  literal := List.forall_mem_append.2 ⟨hp.literal, hq.literal⟩
  argument := List.forall_mem_append.2 ⟨hp.argument, hq.argument⟩
  flag := List.forall_mem_append.2 ⟨hp.flag, hq.flag⟩
  valued := List.forall_mem_append.2 ⟨hp.valued, hq.valued⟩

theorem alt {p q : Pattern} (hp : p.Classified) (hq : q.Classified) : (p.alt q).Classified :=
  ⟨(hp.seq hq).literal, (hp.seq hq).argument, (hp.seq hq).flag, (hp.seq hq).valued⟩

theorem altAll {ps : List Pattern} (h : ∀ p ∈ ps, p.Classified) : (altAll ps).Classified := by
  induction ps with
  | nil => exact empty
  | cons p ps ih =>
    obtain ⟨hp, hps⟩ := List.forall_mem_cons.1 h
    cases ps with
    | nil => exact hp
    | cons q qs => exact hp.alt (ih hps)

/-- A word of a usage line stands for one name, in the class of its text. -/
theorem word (w : String) : (elementOfWord w).Classified := by
  rcases elementOfWord_cases w with h | h | h | ⟨key, value, h, -, hdashes, heq⟩ <;> rw [h]
  · exact ⟨nofun, List.forall_mem_singleton.2 h, nofun, nofun⟩
  · exact ⟨nofun, nofun, List.forall_mem_singleton.2 h, nofun⟩
  · exact ⟨List.forall_mem_singleton.2 h, nofun, nofun, nofun⟩
  · exact ⟨nofun, nofun, nofun, List.forall_mem_singleton.2 ⟨hdashes, heq⟩⟩

/-- What is derived from the tokens of a line has names that are written so. -/
theorem of_derives {c : Category} {ts : List Token} {p : Pattern} (h : Derives c ts p) :
    p.Classified := by
  induction h with
  | word w => exact word w
  | @bracket b _ _ _ ih =>
    cases b
    all_goals exact ⟨ih.literal, ih.argument, ih.flag, ih.valued⟩
  | once _ ih | branch _ ih => exact ih
  | repeated _ ih => exact ⟨ih.literal, ih.argument, ih.flag, ih.valued⟩
  | empty => exact empty
  | cons _ _ ihfirst ihrest => exact ihfirst.seq ihrest
  | bar _ _ ihfirst ihrest => exact ihfirst.alt ihrest

/-! ### Distinct classes -/

variable {p : Pattern} (hp : p.Classified)
include hp

theorem not_argument_of_literal {word : String} (h : word ∈ p.literals) : word ∉ p.arguments :=
  fun h' => by simpa [hp.literal word h] using hp.argument word h'

theorem not_flag_of_literal {word : String} (h : word ∈ p.literals) : word ∉ p.flags :=
  fun h' => by simpa [hp.literal word h] using hp.flag word h'

theorem not_flag_of_argument {name : String} (h : name ∈ p.arguments) : name ∉ p.flags :=
  fun h' => by simpa [hp.argument name h] using hp.flag name h'

/-- A name that starts with two dashes stands for no word. -/
theorem not_mem_of_startsWith {name : String} (h : Text.startsWith "--" name = true) :
    name ∉ p.literals ∧ name ∉ p.arguments := by
  constructor <;> intro hmem
  · rcases elementOfWord_dashes h with h' | ⟨key, h'⟩ <;> simpa [h'] using hp.literal name hmem
  · rcases elementOfWord_dashes h with h' | ⟨key, h'⟩ <;> simpa [h'] using hp.argument name hmem

theorem not_valued_of_literal {word : String} (h : word ∈ p.literals) :
    word ∉ p.valuedOptions :=
  fun h' => (hp.not_mem_of_startsWith (hp.valued word h').1).1 h

theorem not_valued_of_argument {name : String} (h : name ∈ p.arguments) :
    name ∉ p.valuedOptions :=
  fun h' => (hp.not_mem_of_startsWith (hp.valued name h').1).2 h

end Classified

end Pattern

/-! ## Compiled usages -/

/-- A list is made without a fault if each of its elements is. -/
theorem mapM_eq_ok_iff {α β ε : Type} {f : α → Except ε β} {xs : List α} {ys : List β} :
    xs.mapM f = .ok ys ↔ List.Forall₂ (fun x y => f x = .ok y) xs ys := by
  induction xs generalizing ys with
  | nil => cases ys <;> simp [pure, Except.pure]
  | cons x xs ih =>
    rw [List.mapM_cons]
    cases hx : f x with
    | error fault => cases ys <;> simp [hx, bind, Except.bind]
    | ok y =>
      cases hxs : xs.mapM f with
      | error fault => cases ys <;> simp [hx, hxs, ← ih, bind, Except.bind]
      | ok ys' => cases ys <;> simp [hx, hxs, ← ih, bind, Except.bind, pure, Except.pure]

/-- A usage line says a pattern: behind the name of the command, its tokens derive it. -/
def Says (line : String) (p : Pattern) : Prop :=
  ∃ first ts, tokens line = first :: ts ∧ Derives .alternatives ts p

/-- A usage is described by a help text: its lines are those of a usage section, at least one, and
    the patterns that they say are its alternatives. -/
structure DescribedBy (u : Usage) (help : String) : Prop where
  lines : usageLines? help = some u.forms
  nonempty : u.forms ≠ []
  patterns : ∃ ps, List.Forall₂ Says u.forms ps ∧ u.pattern = .altAll ps

theorem mapM_parseLine_eq_ok_iff {lines : List String} {ps : List Pattern} :
    lines.mapM parseLine = .ok ps ↔ List.Forall₂ Says lines ps := by
  have hsays : (fun line p => parseLine line = .ok p) = Says := by
    funext line p
    exact propext (parseLine_eq_ok_iff line p)
  rw [mapM_eq_ok_iff, hsays]

/-- **A help text compiles to a usage** iff it describes it. -/
theorem ofHelp?_eq_ok_iff {help : String} {u : Usage} :
    ofHelp? help = .ok (some u) ↔ u.DescribedBy help := by
  obtain ⟨forms, pattern⟩ := u
  rw [ofHelp?]
  constructor
  · intro h
    split at h
    · cases h
    · cases h
    · rename_i lines hne hlines
      cases hps : lines.mapM parseLine with
      | error fault => simp [hps, Except.map] at h
      | ok ps =>
        simp only [hps, Except.map, Except.ok.injEq, Option.some.injEq, mk.injEq] at h
        obtain ⟨rfl, rfl⟩ := h
        refine ⟨hlines, ?_, ps, mapM_parseLine_eq_ok_iff.1 hps, rfl⟩
        rintro rfl
        exact hne rfl
  · rintro ⟨hlines, hne, ps, hps, rfl⟩
    cases forms with
    | nil => exact absurd rfl hne
    | cons line lines => simp [hlines, mapM_parseLine_eq_ok_iff.2 hps, Except.map]

/-- **The names of a compiled usage** have the texts of their classes. -/
theorem classified {u : Usage} {help : String} (h : ofHelp? help = .ok (some u)) :
    u.pattern.Classified := by
  obtain ⟨ps, hps, hpattern⟩ := (ofHelp?_eq_ok_iff.1 h).patterns
  rw [hpattern]
  clear hpattern
  refine .altAll ?_
  generalize u.forms = forms at hps
  induction hps with
  | nil => exact nofun
  | cons hline _ ih =>
    obtain ⟨_, _, -, hderived⟩ := hline
    exact List.forall_mem_cons.2 ⟨.of_derives hderived, ih⟩

end NestedShell.Usage
