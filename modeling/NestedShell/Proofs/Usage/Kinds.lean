/-
  What kind of binding a name gets.

  The words of the usage lines declare the names of a usage, and say of each what can be bound to it:
  whether it was given, one word, or all words.  A command line changes what a name is bound to, but
  not of which kind that is, and binds no other names.

  * a `Kind` is one of the three, `Capture.kind_update`: a capture keeps the kind of its name;
  * `DeclaredIn`: a usage line has a word for a name; `names_iff`: the names of a compiled usage
    are those that a line of it has a word for;
  * `Pattern.Holds`: a capture is for a name of a pattern that can be bound so;
  * `Usage.Fits` says that bindings have the names of a usage, each with its kind, and `fits_of_apply`
    that a bound command line does.
-/
import NestedShell.Proofs.Usage.Captures

namespace NestedShell.Usage

/-! ## Kinds -/

/-- What can be bound to a name: whether it was given, one word, or all words. -/
inductive Kind where
  | flag | single | list
deriving DecidableEq, Repr

/-- The kind of a binding. -/
def Binding.kind : Binding → Kind
  | flag _ => .flag
  | text _ => .single
  | list _ => .list

/-- The kind of what a name is bound to, if it is bound. -/
def Arguments.kind? (a : Arguments) (name : String) : Option Kind :=
  (a.value? name).map Binding.kind

/-- A capture suits a kind: a word is noted as given, and a value is for one word or for all. -/
def Capture.Suits : Capture → Kind → Prop
  | .word _, kind => kind = .flag
  | .value .., kind => kind ≠ .flag

/-- A capture that suits the kind of its name keeps it. -/
theorem Capture.kind_update {c : Capture} {binding : Binding} (h : c.Suits binding.kind) :
    ∃ binding', c.update (some binding) = some binding' ∧ binding'.kind = binding.kind := by
  cases c with
  | word w => exact ⟨.flag true, rfl, h.symm⟩
  | value name text =>
    cases binding with
    | flag given => exact absurd rfl h
    | text word => exact ⟨.text (some text), rfl, rfl⟩
    | list words => exact ⟨.list (words ++ [text]), rfl, rfl⟩

/-- **Captures that suit the kind** of their name keep it. -/
theorem kind_foldl_update {cs : List Capture} {binding : Binding}
    (h : ∀ c ∈ cs, c.Suits binding.kind) :
    (cs.foldl (fun binding c => c.update binding) (some binding)).map Binding.kind =
      some binding.kind := by
  induction cs generalizing binding with
  | nil => rfl
  | cons c cs ih =>
    obtain ⟨hc, hcs⟩ := List.forall_mem_cons.1 h
    obtain ⟨binding', hupdate, hkind⟩ := c.kind_update hc
    rw [List.foldl_cons, hupdate, ← hkind]
    exact ih (hkind ▸ hcs)

/-! ## Declared names -/

/-- The names of a pattern. -/
def Pattern.Names (p : Pattern) (name : String) : Prop := name ∈ p.flagNames ∨ name ∈ p.valueNames

/-- A usage line has a word for a name, behind the name of the command. -/
def DeclaredIn (line name : String) : Prop :=
  ∃ w, Token.word w ∈ (tokens line).tail ∧ (elementOfWord w).Names name

namespace Pattern

theorem names_seq {p q : Pattern} {name : String} :
    (p.seq q).Names name ↔ p.Names name ∨ q.Names name := by
  simp only [Names, flagNames, valueNames, List.mem_append, or_or_or_comm]

theorem names_altAll {ps : List Pattern} {name : String} :
    (altAll ps).Names name ↔ ∃ p ∈ ps, p.Names name := by
  induction ps with
  | nil => simp [altAll, Names, flagNames, valueNames]
  | cons p ps ih =>
    cases ps with
    | nil => simp [altAll]
    | cons q qs =>
      have halt : (altAll (p :: q :: qs)).Names name ↔
          p.Names name ∨ (altAll (q :: qs)).Names name := names_seq
      simp [halt, ih]

/-- Derived tokens hold the words that the names of their pattern come from. -/
theorem names_of_derives {c : Category} {ts : List Token} {p : Pattern} (h : Derives c ts p)
    (name : String) : p.Names name ↔ ∃ w, Token.word w ∈ ts ∧ (elementOfWord w).Names name := by
  induction h with
  | word w => simp
  | @bracket b ts p _ ih =>
    have hwrap : (b.wrap p).Names name ↔ p.Names name := by cases b <;> exact Iff.rfl
    simpa [hwrap] using ih
  | once _ ih | branch _ ih => exact ih
  | @repeated ts p _ ih =>
    have hrepeat : p.oneOrMore.Names name ↔ p.Names name := Iff.rfl
    simpa [hrepeat] using ih
  | empty => simp [Names, flagNames, valueNames]
  | cons _ _ ihfirst ihrest =>
    rw [names_seq, ihfirst, ihrest]
    simp [or_and_right, exists_or]
  | @bar ts us p q _ _ ihfirst ihrest =>
    have halt : (p.alt q).Names name ↔ p.Names name ∨ q.Names name := names_seq
    rw [halt, ihfirst, ihrest]
    simp [or_and_right, exists_or]

end Pattern

/-- **The names of a compiled usage** are those that one of its lines has a word for. -/
theorem names_iff {help : String} {u : Usage} (hhelp : ofHelp? help = .ok (some u))
    (name : String) : u.pattern.Names name ↔ ∃ line ∈ u.forms, DeclaredIn line name := by
  obtain ⟨ps, hps, hpattern⟩ := (ofHelp?_eq_ok_iff.1 hhelp).patterns
  rw [hpattern, Pattern.names_altAll]
  clear hpattern
  generalize u.forms = forms at hps
  induction hps with
  | nil => simp
  | @cons line p _ _ hline _ ih =>
    obtain ⟨first, ts, htokens, hderived⟩ := hline
    have hdeclared : DeclaredIn line name ↔ p.Names name := by
      rw [DeclaredIn, htokens, List.tail_cons, Pattern.names_of_derives hderived]
    simp [hdeclared, ih]

/-! ## Captures for the names of a pattern -/

/-- A pattern holds a capture if it has a name that can be bound so. -/
def Pattern.Holds (p : Pattern) : Capture → Prop
  | .word w => w ∈ p.flagNames
  | .value name _ => name ∈ p.valueNames

variable {u : Usage}

theorem holds_of_isOption {c : Capture} (h : u.IsOption c) : u.pattern.Holds c := by
  cases c with
  | word w => exact Pattern.mem_flagNames.2 (.inr h)
  | value name text => exact Pattern.mem_valueNames.2 (.inr h)

theorem holds_of_declares {c : Capture} (h : u.pattern.Declares c) : u.pattern.Holds c := by
  cases c with
  | word w => exact Pattern.mem_flagNames.2 (.inl h)
  | value name text => exact Pattern.mem_valueNames.2 (.inl h)

/-- If no option is declared both with and without a value, no name says whether it was given and
    also has words given for it. -/
theorem disjoint_names (hp : u.pattern.Classified)
    (hu : ∀ name ∈ u.pattern.flags, name ∉ u.pattern.valuedOptions) {name : String}
    (hflag : name ∈ u.pattern.flagNames) : name ∉ u.pattern.valueNames := by
  intro hvalue
  rcases Pattern.mem_flagNames.1 hflag with hflag | hflag <;>
    rcases Pattern.mem_valueNames.1 hvalue with hvalue | hvalue
  · exact hp.not_argument_of_literal hflag hvalue
  · exact hp.not_valued_of_literal hflag hvalue
  · exact hp.not_flag_of_argument hvalue hflag
  · exact hu name hflag hvalue

/-! ## Bindings that fit a usage -/

/-- Bindings fit a usage if they are for the names in its lines, each of the kind of its name. -/
structure Fits (u : Usage) (args : Arguments) : Prop where
  keys : ∀ name, name ∈ args.values ↔ ∃ line ∈ u.forms, DeclaredIn line name
  flag : ∀ name ∈ u.pattern.flagNames, args.kind? name = some .flag
  list : ∀ name ∈ u.pattern.repeatedNames, args.kind? name = some .list
  single : ∀ name ∈ u.pattern.valueNames, name ∉ u.pattern.repeatedNames →
    args.kind? name = some .single

section
variable {captures : List Capture} (hcaptures : ∀ c ∈ captures, u.pattern.Holds c)
include hcaptures

/-- A name that says whether it was given goes on to. -/
theorem kind_bindCaptures_flag {name : String} (hvalue : name ∉ u.pattern.valueNames)
    (hflag : name ∈ u.pattern.flagNames) :
    (bindCaptures u.pattern.defaults captures)[name]?.map Binding.kind = some .flag := by
  rw [getElem?_bindCaptures, Pattern.defaults, Pattern.getElem?_addDefaults_flag hvalue]
  have hdefault : defaulted (.flag false) false (decide (name ∈ u.pattern.flagNames))
      (∅ : Bindings)[name]? = some (.flag false) := by simp [defaulted, hflag]
  rw [hdefault]
  refine kind_foldl_update fun c hc => ?_
  obtain ⟨hc, hname⟩ : c ∈ captures ∧ c.name = name := by simpa using hc
  have hholds := hcaptures c hc
  cases c with
  | word w => rfl
  | value name' text =>
    obtain rfl : name' = name := hname
    exact absurd hholds hvalue

/-- A name that words are given for keeps its kind: a list if it is repeated anywhere. -/
theorem kind_bindCaptures_value {name : String} (hflag : name ∉ u.pattern.flagNames)
    (hvalue : name ∈ u.pattern.valueNames) :
    (bindCaptures u.pattern.defaults captures)[name]?.map Binding.kind =
      some (if name ∈ u.pattern.repeatedNames then .list else .single) := by
  rw [getElem?_bindCaptures, Pattern.defaults, Pattern.getElem?_addDefaults_value hflag]
  obtain ⟨binding, hdefault, hne, hkind⟩ : ∃ binding,
      defaulted (.text none) (decide (name ∈ u.pattern.repeatedNames))
        (decide (name ∈ u.pattern.valueNames)) (∅ : Bindings)[name]? = some binding ∧
      binding.kind ≠ .flag ∧
      binding.kind = if name ∈ u.pattern.repeatedNames then .list else .single := by
    by_cases hrepeated : name ∈ u.pattern.repeatedNames
    · exact ⟨.list [], by simp [defaulted, hrepeated], by decide, (if_pos hrepeated).symm⟩
    · exact ⟨.text none, by simp [defaulted, hrepeated, hvalue], by decide,
        (if_neg hrepeated).symm⟩
  rw [if_neg Bool.false_ne_true, hdefault, ← hkind]
  refine kind_foldl_update fun c hc => ?_
  obtain ⟨hc, hname⟩ : c ∈ captures ∧ c.name = name := by simpa using hc
  have hholds := hcaptures c hc
  cases c with
  | word w =>
    obtain rfl : w = name := hname
    exact absurd hholds hflag
  | value name' text => exact hne

/-- Other names are bound to nothing. -/
theorem getElem?_bindCaptures_of_not_names {name : String} (h : ¬u.pattern.Names name) :
    (bindCaptures u.pattern.defaults captures)[name]? = none := by
  obtain ⟨hflag, hvalue⟩ := not_or.1 h
  rw [getElem?_bindCaptures_of_forall, Pattern.defaults,
    Pattern.getElem?_addDefaults_flag hvalue]
  · simp [defaulted, hflag]
  · intro c hc hname
    have hholds := hcaptures c hc
    cases c with
    | word w => exact hflag (hname ▸ hholds)
    | value name' text => exact hvalue (hname ▸ hholds)

end

/-- **Bound command lines have the declared shape.**  If no option is declared both with and
    without a value, then the names in the lines of a usage are what a command line is bound to,
    and no other name is.  Each has the kind that it is declared with: literal words and flags say
    whether they were given, and an argument or an option with a value has all of its words if it
    is repeated anywhere, and otherwise at most one. -/
theorem fits_of_apply {help : String} {u : Usage} (hhelp : ofHelp? help = .ok (some u))
    (hu : ∀ name ∈ u.pattern.flags, name ∉ u.pattern.valuedOptions)
    {argv : List String} {args : Arguments} (h : u.apply argv = .ok args) : u.Fits args := by
  obtain ⟨s, captures, hsplit, hfirst, rfl⟩ := exists_captures h
  have hp := classified hhelp
  have hholds : ∀ c ∈ s.2 ++ captures, u.pattern.Holds c := by
    refine List.forall_mem_append.2 ⟨fun c hc => ?_, fun c hc => ?_⟩
    · exact holds_of_isOption (isOption_of_split? hsplit c hc)
    · exact holds_of_declares
        ((Pattern.faithful_of_mem_results (List.mem_of_find?_eq_some hfirst)).kind c hc)
  have hflag : ∀ name ∈ u.pattern.flagNames,
      (bindCaptures u.pattern.defaults (s.2 ++ captures))[name]?.map Binding.kind = some .flag :=
    fun name hname => kind_bindCaptures_flag hholds (disjoint_names hp hu hname) hname
  have hvalue : ∀ name ∈ u.pattern.valueNames,
      (bindCaptures u.pattern.defaults (s.2 ++ captures))[name]?.map Binding.kind =
        some (if name ∈ u.pattern.repeatedNames then .list else .single) :=
    fun name hname =>
      kind_bindCaptures_value hholds (fun hflag => disjoint_names hp hu hflag hname) hname
  refine ⟨fun name => ?_, hflag, fun name hname => ?_, fun name hname hsingle => ?_⟩
  · rw [← names_iff hhelp, Std.TreeMap.mem_iff_isSome_getElem?]
    constructor
    · intro hbound
      by_contra hnames
      rw [getElem?_bindCaptures_of_not_names hholds hnames] at hbound
      cases hbound
    · rintro (hname | hname)
      · rw [← Option.isSome_map, hflag name hname, Option.isSome_some]
      · rw [← Option.isSome_map, hvalue name hname, Option.isSome_some]
  · rw [Arguments.kind?, Arguments.value?, hvalue name (Pattern.repeatedNames_subset hname),
      if_pos hname]
  · rw [Arguments.kind?, Arguments.value?, hvalue name hname, if_neg hsingle]

/-- The usage of a command with an argument that one line repeats and another does not. -/
def tagUsage : Usage where
  forms := ["tag [-f] [--with=<x>]... (add|drop) <name>...", "tag list <name>"]
  pattern := .alt
    (.seq (.optional (.seq (.flag "-f") .empty))
      (.seq (.oneOrMore (.optional (.seq (.valued "--with") .empty)))
        (.seq (.group (.alt (.seq (.literal "add") .empty) (.seq (.literal "drop") .empty)))
          (.seq (.oneOrMore (.argument "<name>")) .empty))))
    (.seq (.literal "list") (.seq (.argument "<name>") .empty))

/-- The name is a list also where the second line is matched. -/
theorem fits_tag :
    (∀ name ∈ tagUsage.pattern.flags, name ∉ tagUsage.pattern.valuedOptions) ∧
    ∃ args, tagUsage.apply ["tag", "list", "--with=a", "b"] = .ok args ∧ tagUsage.Fits args ∧
      args.kind? "<name>" = some .list ∧ args.kind? "add" = some .flag := by
  have hhelp : ofHelp?
      "Usage:\n tag [-f] [--with=<x>]... (add|drop) <name>...\n tag list <name>" =
        .ok (some tagUsage) := rfl
  have hu : ∀ name ∈ tagUsage.pattern.flags, name ∉ tagUsage.pattern.valuedOptions := by
    decide
  have hmatch : tagUsage.pattern.match? ["list", "b"] =
      some [.word "list", .value "<name>" "b"] := by decide +kernel
  have hsplit : tagUsage.split? ["list", "--with=a", "b"] =
      some (["list", "b"], [.value "--with" "a"]) := by decide +kernel
  have happly : tagUsage.apply ["tag", "list", "--with=a", "b"] = .ok
      ⟨["tag", "list", "--with=a", "b"], bindCaptures tagUsage.pattern.defaults
        [.value "--with" "a", .word "list", .value "<name>" "b"]⟩ :=
    apply_of_match? hsplit hmatch
  have hfits := fits_of_apply hhelp hu happly
  refine ⟨hu, _, happly, hfits, hfits.list _ ?_, hfits.flag _ ?_⟩ <;> decide

end NestedShell.Usage
