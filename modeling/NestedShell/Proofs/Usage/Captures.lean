/-
  What a command line is bound to.

  All parts of a pattern note their captures on one trail, so an abandoned choice must not leave
  one behind.  Then the captures of a match are its words, one for each and in order, and the names
  of the pattern are bound to them.

  * `Pattern.walk_eq_find?`: the trail is extended by the captures of the first result that is
    accepted, and it is as before when there is none;
  * `Pattern.Faithful`: the captures of a result hold the words that it takes, under names of the
    pattern; `faithful_of_mem_results`: so it is for all results;
  * `Pattern.getElem?_addDefaults_value`, `Pattern.getElem?_addDefaults_flag`: what the names are
    bound to at first;
  * `Usage.Bound` says what they are bound to at last, and `exists_bound` that they are.
-/
import NestedShell.Proofs.Usage.Results
import NestedShell.Proofs.Usage.Split

namespace NestedShell.Usage

namespace Pattern

/-! ## The first result that is accepted -/

/-- The first result that the continuation accepts is kept. -/
theorem tries_eq_find? (k : Continuation) (rs : List Result) (trail : Trail) :
    tries k rs trail =
      match rs.find? fun m => (k m.1 (m.2.reverse ++ trail)).1 with
      | some m => (true, (k m.1 (m.2.reverse ++ trail)).2)
      | none => (false, trail) := by
  induction rs with
  | nil => rfl
  | cons m rs ih =>
    rw [tries, ih, List.find?_cons]
    rcases hm : k m.1 (m.2.reverse ++ trail) with ⟨_ | _, trail'⟩
    · rfl
    · simp only [hm]

/-- **Matching with a continuation** keeps the captures of the first result that is accepted, and
    no others. -/
theorem walk_eq_find? (p : Pattern) {k : Continuation} (hk : Restores k) (words : List String)
    (trail : Trail) :
    p.walk k words trail =
      match (p.results words).find? fun m => (k m.1 (m.2.reverse ++ trail)).1 with
      | some m => (true, (k m.1 (m.2.reverse ++ trail)).2)
      | none => (false, trail) := by
  rw [walk_eq_tries p hk, tries_eq_find?]

/-- The captures of the first result that leaves no words. -/
theorem match?_eq_find? (p : Pattern) (words : List String) :
    p.match? words = ((p.results words).find? fun m => m.1 = []).map (·.2) := by
  rw [match?, walk_eq_find? p fun _ _ _ => rfl]
  cases (p.results words).find? fun m => m.1 = [] <;> simp

/-! ## The captures of a result -/

end Pattern

/-- The word that was captured. -/
def Capture.text : Capture → String
  | .word w => w
  | .value _ text => text

namespace Pattern

/-- Whether a pattern has the name of a capture. -/
def Declares (p : Pattern) : Capture → Prop
  | .word w => w ∈ p.literals
  | .value name _ => name ∈ p.arguments

theorem Declares.mono {p q : Pattern} (hliterals : p.literals ⊆ q.literals)
    (harguments : p.arguments ⊆ q.arguments) {c : Capture} (h : p.Declares c) : q.Declares c := by
  cases c with
  | word w => exact hliterals h
  | value name text => exact harguments h

/-- The captures of a result are one for each word that it takes, in order, and of some kind. -/
structure Faithful (kind : Capture → Prop) (words : List String) (m : Result) : Prop where
  texts : m.2.map Capture.text ++ m.1 = words
  kind : ∀ c ∈ m.2, kind c

namespace Faithful
variable {kind kind' : Capture → Prop} {words : List String} {m m' : Result}

theorem nil (words : List String) : Faithful kind words (words, []) := ⟨rfl, nofun⟩

theorem singleton {c : Capture} (h : kind c) (rest : List String) :
    Faithful kind (c.text :: rest) (rest, [c]) :=
  ⟨rfl, List.forall_mem_singleton.2 h⟩

/-- A result of what another one leaves. -/
theorem append (h : Faithful kind words m) (h' : Faithful kind m.1 m') :
    Faithful kind words (m'.1, m.2 ++ m'.2) where
  texts := by rw [List.map_append, List.append_assoc, h'.texts, h.texts]
  kind := List.forall_mem_append.2 ⟨h.kind, h'.kind⟩

theorem mono (h : Faithful kind words m) (himp : ∀ c, kind c → kind' c) :
    Faithful kind' words m :=
  ⟨h.texts, fun c hc => himp c (h.kind c hc)⟩

/-- Repeating keeps captures faithful. -/
theorem of_mem_repetitions {once : List String → List Result}
    (honce : ∀ words, ∀ m ∈ once words, Faithful kind words m)
    (h : m ∈ repetitions once words) : Faithful kind words m := by
  induction hn : words.length using Nat.strongRecOn generalizing words m with
  | ind n ih =>
    subst hn
    rw [repetitions, List.mem_flatMap] at h
    obtain ⟨first, hfirst, h⟩ := h
    have hfaithful := honce words first hfirst
    rcases List.mem_append.1 h with h | h
    · split at h
      · rename_i hlt
        obtain ⟨more, hmore, rfl⟩ := List.mem_map.1 h
        exact hfaithful.append (ih _ hlt hmore rfl)
      · cases h
    · rwa [List.mem_singleton.1 h]

end Faithful

/-- **The captures of every result** are the words that it takes, under names of the pattern. -/
theorem faithful_of_mem_results {p : Pattern} {words : List String} {m : Result}
    (h : m ∈ p.results words) : Faithful p.Declares words m := by
  induction p generalizing words m with
  | literal word =>
    cases words with
    | nil => cases h
    | cons w rest =>
      have hword : (literal word).Declares (.word word) := List.mem_singleton_self word
      rw [results] at h
      split at h
      · rename_i heq
        subst heq
        rw [List.mem_singleton.1 h]
        exact .singleton hword rest
      · cases h
  | argument name =>
    cases words with
    | nil => cases h
    | cons w rest =>
      have hname : (argument name).Declares (.value name w) := List.mem_singleton_self name
      rw [List.mem_singleton.1 h]
      exact .singleton hname rest
  | flag | valued | empty =>
    rw [List.mem_singleton.1 h]
    exact .nil words
  | seq p q ihp ihq =>
    obtain ⟨first, hfirst, h⟩ := List.mem_flatMap.1 h
    obtain ⟨second, hsecond, rfl⟩ := List.mem_map.1 h
    have hp : Faithful (seq p q).Declares words first := (ihp hfirst).mono fun _ =>
      .mono (List.subset_append_left ..) (List.subset_append_left ..)
    have hq : Faithful (seq p q).Declares first.1 second := (ihq hsecond).mono fun _ =>
      .mono (List.subset_append_right ..) (List.subset_append_right ..)
    exact hp.append hq
  | alt p q ihp ihq =>
    rcases List.mem_append.1 h with h | h
    · exact (ihp h).mono fun _ => .mono (List.subset_append_left ..) (List.subset_append_left ..)
    · exact (ihq h).mono fun _ => .mono (List.subset_append_right ..) (List.subset_append_right ..)
  | optional p ih =>
    rcases List.mem_append.1 h with h | h
    · exact (ih h).mono fun _ => .mono (List.Subset.refl _) (List.Subset.refl _)
    · rw [List.mem_singleton.1 h]
      exact .nil words
  | group p ih => exact (ih h).mono fun _ => .mono (List.Subset.refl _) (List.Subset.refl _)
  | oneOrMore p ih =>
    refine Faithful.of_mem_repetitions (fun words m hm => ?_) h
    exact (ih hm).mono fun _ => .mono (List.Subset.refl _) (List.Subset.refl _)

end Pattern

/-! ## Defaults -/

theorem getElem?_insert (b : Bindings) (name : String) (value : Binding) (key : String) :
    (b.insert name value)[key]? = if key = name then some value else b[key]? := by
  rw [Std.TreeMap.getElem?_insert]
  by_cases hname : key = name <;> simp [hname, Ne.symm]

theorem getElem?_bindDefault (b : Bindings) (name : String) (value : Binding) (key : String) :
    (b.bindDefault name value)[key]? =
      if key = name then some (b[key]?.getD value) else b[key]? := by
  rw [Bindings.bindDefault, Std.TreeMap.contains_eq_isSome_getElem?]
  cases hb : b[name]? with
  | none =>
    rw [Option.isSome_none, if_neg (by simp), getElem?_insert]
    split
    · simp_all
    · rfl
  | some binding =>
    rw [Option.isSome_some, if_pos rfl]
    split
    · simp_all
    · rfl

/-- What a name comes to be bound to by default: a list if it is `listed`, and otherwise, if it is
    `given`, what it is bound to already or a certain binding. -/
def defaulted (value : Binding) (listed given : Bool) (binding : Option Binding) :
    Option Binding :=
  if listed then some (.list []) else if given then some (binding.getD value) else binding

/-- One part after the other. -/
theorem defaulted_defaulted (value : Binding) (listed given listed' given' : Bool)
    (binding : Option Binding) :
    defaulted value listed' given' (defaulted value listed given binding) =
      defaulted value (listed || listed') (given || given') binding := by
  cases listed' <;> cases given' <;> cases listed <;> cases given <;> rfl

namespace Pattern

/-- What a name that words are given for is bound to at first: a list if it is repeated
    anywhere. -/
theorem getElem?_addDefaults_value {p : Pattern} {name : String} (h : name ∉ p.flagNames)
    (repeated : Bool) (b : Bindings) :
    (p.addDefaults repeated b)[name]? = defaulted (.text none)
      (decide (name ∈ if repeated then p.valueNames else p.repeatedNames))
      (decide (name ∈ p.valueNames)) b[name]? := by
  induction p generalizing repeated b with
  | literal n | flag n =>
    have hne : name ≠ n := by simpa [flagNames] using h
    cases repeated <;>
      simp [addDefaults, getElem?_bindDefault, valueNames, repeatedNames, hne, defaulted]
  | argument n | valued n =>
    by_cases hname : name = n <;> cases repeated <;> simp [addDefaults, getElem?_bindDefault,
      getElem?_insert, valueNames, repeatedNames, defaulted, hname]
  | empty => cases repeated <;> simp [addDefaults, valueNames, repeatedNames, defaulted]
  | seq p q ihp ihq | alt p q ihp ihq =>
    simp only [flagNames, List.mem_append, not_or] at h
    rw [addDefaults, ihq h.2, ihp h.1, defaulted_defaulted]
    cases repeated <;> simp [valueNames, repeatedNames]
  | optional p ih | group p ih => exact ih h repeated b
  | oneOrMore p ih =>
    rw [addDefaults, ih h]
    cases repeated <;> rfl

/-- What a name that says whether it was given is bound to at first. -/
theorem getElem?_addDefaults_flag {p : Pattern} {name : String} (h : name ∉ p.valueNames)
    (repeated : Bool) (b : Bindings) :
    (p.addDefaults repeated b)[name]? =
      defaulted (.flag false) false (decide (name ∈ p.flagNames)) b[name]? := by
  induction p generalizing repeated b with
  | literal n | flag n =>
    by_cases hname : name = n <;>
      simp [addDefaults, getElem?_bindDefault, flagNames, defaulted, hname]
  | argument n | valued n =>
    have hne : name ≠ n := by simpa [valueNames] using h
    cases repeated <;>
      simp [addDefaults, getElem?_bindDefault, getElem?_insert, flagNames, defaulted, hne]
  | empty => rfl
  | seq p q ihp ihq | alt p q ihp ihq =>
    simp only [valueNames, List.mem_append, not_or] at h
    rw [addDefaults, ihq h.2, ihp h.1, defaulted_defaulted]
    simp [flagNames]
  | optional p ih | group p ih => exact ih h repeated b
  | oneOrMore p ih => exact ih h true b

end Pattern

/-! ## Bindings -/

/-- The words that were captured for a name. -/
def captured (name : String) (captures : List Capture) : List String :=
  captures.filterMap fun
    | .value name' text => if name' = name then some text else none
    | .word _ => none

/-- The last word for a single argument is kept. -/
theorem foldl_update_text (name : String) (texts : List String) (word : Option String) :
    (texts.map (Capture.value name)).foldl (fun binding c => c.update binding)
      (some (.text word)) = some (.text (texts.getLast?.or word)) := by
  induction texts generalizing word with
  | nil => rfl
  | cons text texts ih =>
    rw [List.map_cons, List.foldl_cons, Capture.update, ih]
    · cases texts <;> simp [List.getLast?_cons]
    · simp

/-- The captures for the name of an argument. -/
theorem filter_name_eq_map {p : Pattern} (hp : p.Classified) {name : String}
    (hname : name ∈ p.arguments) {captures : List Capture} (h : ∀ c ∈ captures, p.Declares c) :
    captures.filter (·.name = name) = (captured name captures).map (.value name) := by
  induction captures with
  | nil => rfl
  | cons c captures ih =>
    obtain ⟨hc, hcaptures⟩ := List.forall_mem_cons.1 h
    cases c with
    | word w =>
      have hne : w ≠ name := by
        rintro rfl
        exact hp.not_argument_of_literal hc hname
      simpa [captured, Capture.name, hne] using ih hcaptures
    | value name' text =>
      by_cases heq : name' = name
      · simpa [captured, Capture.name, heq] using ih hcaptures
      · simpa [captured, Capture.name, heq] using ih hcaptures

/-- The captures for a literal word leave its flag given, if there are any. -/
theorem foldl_update_literal {p : Pattern} (hp : p.Classified) {w : String}
    (hw : w ∈ p.literals) {captures : List Capture} (h : ∀ c ∈ captures, p.Declares c)
    (given : Bool) :
    (captures.filter (·.name = w)).foldl (fun binding c => c.update binding)
      (some (.flag given)) = some (.flag (given || decide (.word w ∈ captures))) := by
  induction captures generalizing given with
  | nil => simp
  | cons c captures ih =>
    obtain ⟨hc, hcaptures⟩ := List.forall_mem_cons.1 h
    cases c with
    | word w' =>
      by_cases heq : w' = w
      · simpa [Capture.name, Capture.update, heq] using ih hcaptures true
      · simpa [Capture.name, heq, Ne.symm heq] using ih hcaptures given
    | value name text =>
      have hne : name ≠ w := by
        rintro rfl
        exact hp.not_argument_of_literal hw hc
      simpa [Capture.name, hne] using ih hcaptures given

/-! ## Bound command lines -/

/-- Options leave the names of words alone. -/
theorem getElem?_bindCaptures_options {u : Usage} {options : List Capture}
    (h : ∀ c ∈ options, u.IsOption c) {key : String} (hflag : key ∉ u.pattern.flags)
    (hvalued : key ∉ u.pattern.valuedOptions) (b : Bindings) :
    (bindCaptures b options)[key]? = b[key]? := by
  refine getElem?_bindCaptures_of_forall (fun c hc => ?_) b
  have hoption := h c hc
  rintro rfl
  cases c with
  | word name => exact hflag hoption
  | value name text => exact hvalued hoption

section
variable {u : Usage} (hp : u.pattern.Classified) {options captures : List Capture}
  (hoptions : ∀ c ∈ options, u.IsOption c) (hcaptures : ∀ c ∈ captures, u.pattern.Declares c)
include hp hoptions hcaptures

/-- A repeated argument is bound to all words that were captured for it, a single one to the last
    of them. -/
theorem getElem?_bound_argument {name : String} (hname : name ∈ u.pattern.arguments) :
    (bindCaptures u.pattern.defaults (options ++ captures))[name]? =
      if name ∈ u.pattern.repeatedArguments then some (.list (captured name captures))
      else some (.text (captured name captures).getLast?) := by
  have hliteral : name ∉ u.pattern.literals := fun h => hp.not_argument_of_literal h hname
  have hflag := hp.not_flag_of_argument hname
  have hvalued := hp.not_valued_of_argument hname
  rw [bindCaptures_append, getElem?_bindCaptures, filter_name_eq_map hp hname hcaptures,
    getElem?_bindCaptures_options hoptions hflag hvalued, Pattern.defaults,
    Pattern.getElem?_addDefaults_value (by simp [Pattern.mem_flagNames, hliteral, hflag])]
  have hvalue : name ∈ u.pattern.valueNames := Pattern.mem_valueNames.2 (.inl hname)
  by_cases hrepeated : name ∈ u.pattern.repeatedArguments
  · have hlist := foldl_update_list name (captured name captures) []
    simpa [defaulted, Pattern.mem_repeatedNames hvalued, hrepeated] using hlist
  · have htext := foldl_update_text name (captured name captures) none
    simpa [defaulted, Pattern.mem_repeatedNames hvalued, hrepeated, hvalue] using htext

/-- The flag of a literal word is given iff the word was captured. -/
theorem getElem?_bound_literal {w : String} (hw : w ∈ u.pattern.literals) :
    (bindCaptures u.pattern.defaults (options ++ captures))[w]? =
      some (.flag (decide (.word w ∈ captures))) := by
  have hflag := hp.not_flag_of_literal hw
  have hvalued := hp.not_valued_of_literal hw
  rw [bindCaptures_append, getElem?_bindCaptures,
    getElem?_bindCaptures_options hoptions hflag hvalued, Pattern.defaults,
    Pattern.getElem?_addDefaults_flag
      (by simp [Pattern.mem_valueNames, hp.not_argument_of_literal hw, hvalued])]
  have hname : w ∈ u.pattern.flagNames := Pattern.mem_flagNames.2 (.inl hw)
  simpa [defaulted, hname] using foldl_update_literal hp hw hcaptures false

end

/-- What a bound command line holds, besides its options: the captures of the first result that
    takes all the words that are left, each word captured once and in order. -/
structure Bound (u : Usage) (args : Arguments) (positional : List String)
    (captures : List Capture) : Prop where
  /-- the words that are left when the options are taken out -/
  split : ∃ b, u.splitOptions args.argv.tail u.pattern.defaults = .ok (positional, b)
  first : (u.pattern.results positional).find? (·.1 = []) = some ([], captures)
  texts : captures.map Capture.text = positional
  declared : ∀ c ∈ captures, u.pattern.Declares c
  repeated : ∀ name ∈ u.pattern.repeatedArguments,
    args.value? name = some (.list (captured name captures))
  single : ∀ name ∈ u.pattern.arguments, name ∉ u.pattern.repeatedArguments →
    args.value? name = some (.text (captured name captures).getLast?)
  literal : ∀ w ∈ u.pattern.literals,
    args.value? w = some (.flag (decide (.word w ∈ captures)))

/-- A command line that is bound comes down to its options and the captures of the first result
    that takes all other words. -/
theorem exists_captures {u : Usage} {argv : List String} {args : Arguments}
    (h : u.apply argv = .ok args) :
    ∃ (s : Split) (captures : List Capture), u.split? argv.tail = some s ∧
      (u.pattern.results s.1).find? (·.1 = []) = some ([], captures) ∧
      args = ⟨argv, bindCaptures u.pattern.defaults (s.2 ++ captures)⟩ := by
  rw [apply_eq_bindSplit] at h
  split at h
  case h_2 => cases h
  rename_i s hsplit
  split at h
  case h_2 => cases h
  rename_i captures hmatch
  cases h
  rw [Pattern.match?_eq_find?, Option.map_eq_some_iff] at hmatch
  obtain ⟨⟨rest, captures⟩, hfirst, rfl⟩ := hmatch
  obtain rfl : rest = [] := by simpa using List.find?_some hfirst
  exact ⟨s, captures, hsplit, hfirst, rfl⟩

/-- **A command line that is bound** has its words under the names of the pattern. -/
theorem exists_bound {u : Usage} (hp : u.pattern.Classified) {argv : List String}
    {args : Arguments} (h : u.apply argv = .ok args) :
    args.argv = argv ∧ ∃ positional captures, u.Bound args positional captures := by
  obtain ⟨s, captures, hsplit, hfirst, rfl⟩ := exists_captures h
  have hfaithful := Pattern.faithful_of_mem_results (List.mem_of_find?_eq_some hfirst)
  have hoptions := isOption_of_split? hsplit
  refine ⟨rfl, s.1, captures, ⟨?_, hfirst, ?_, hfaithful.kind, fun name hname => ?_,
    fun name hname hsingle => ?_, fun w hw => ?_⟩⟩
  · exact ⟨_, by rw [splitOptions_eq_bindSplit, hsplit, bindSplit]⟩
  · simpa using hfaithful.texts
  · have hargument := Pattern.repeatedArguments_subset hname
    have hbound := getElem?_bound_argument hp hoptions hfaithful.kind hargument
    rwa [if_pos hname] at hbound
  · have hbound := getElem?_bound_argument hp hoptions hfaithful.kind hname
    rwa [if_neg hsingle] at hbound
  · exact getElem?_bound_literal hp hoptions hfaithful.kind hw

/-- **Backtracking leaves nothing behind and binds everything.**  A pattern is matched by the first
    of its results that the continuation accepts: the trail is extended by the captures of that
    result, and if there is none, it is as it was.  So in a command line that is bound, the words
    that are left are captured, each of them once, and the names of a compiled usage are bound to
    what was captured for them.

    The continuation has to restore the trail itself when it fails, because an option in a pattern
    hands it the trail as it is. -/
theorem captures_of_first_result :
    (∀ (p : Pattern) (k : Pattern.Continuation), Pattern.Restores k →
      ∀ (words : List String) (trail : Pattern.Trail),
        p.walk k words trail =
          match (p.results words).find? fun m => (k m.1 (m.2.reverse ++ trail)).1 with
          | some m => (true, (k m.1 (m.2.reverse ++ trail)).2)
          | none => (false, trail)) ∧
    ∀ (help : String) (u : Usage), ofHelp? help = .ok (some u) →
      ∀ (argv : List String) (args : Arguments), u.apply argv = .ok args →
        args.argv = argv ∧ ∃ positional captures, u.Bound args positional captures :=
  ⟨fun p _ hk words trail => p.walk_eq_find? hk words trail,
    fun _ _ hu _ _ hargs => exists_bound (classified hu) hargs⟩

/-- The usage of a command that takes several words and a last one. -/
def copyUsage : Usage where
  forms := ["copy [-f] [now] <from>... <to>"]
  pattern := .seq (.optional (.seq (.flag "-f") .empty))
    (.seq (.optional (.seq (.literal "now") .empty))
      (.seq (.oneOrMore (.argument "<from>")) (.seq (.argument "<to>") .empty)))

/-- The repeated argument gives its last word back. -/
theorem bound_copy :
    copyUsage.pattern.walk (fun rest trail => (rest = [], trail)) ["a", "b"] [] =
      (true, [.value "<to>" "b", .value "<from>" "a"]) ∧
    ∃ args, copyUsage.apply ["copy", "a", "-f", "b", "c"] = .ok args ∧
      args.argv = ["copy", "a", "-f", "b", "c"] ∧
      ∃ positional captures, copyUsage.Bound args positional captures := by
  have hhelp : ofHelp? "Usage: copy [-f] [now] <from>... <to>" = .ok (some copyUsage) := rfl
  have hk : Pattern.Restores fun rest trail => (rest = [], trail) := fun _ _ _ => rfl
  have hmatch : copyUsage.pattern.match? ["a", "b", "c"] =
      some [.value "<from>" "a", .value "<from>" "b", .value "<to>" "c"] := by decide +kernel
  have hsplit : copyUsage.split? ["a", "-f", "b", "c"] =
      some (["a", "b", "c"], [.word "-f"]) := by decide +kernel
  have happly : copyUsage.apply ["copy", "a", "-f", "b", "c"] = .ok
      ⟨["copy", "a", "-f", "b", "c"], bindCaptures copyUsage.pattern.defaults
        [.word "-f", .value "<from>" "a", .value "<from>" "b", .value "<to>" "c"]⟩ :=
    apply_of_match? hsplit hmatch
  refine ⟨?_, _, happly, captures_of_first_result.2 _ _ hhelp _ _ happly⟩
  rw [captures_of_first_result.1 _ _ hk]
  decide +kernel

/-- The part of a command line that is repeated, and repeats a word itself. -/
def wrapRound : Pattern :=
  .group (.seq (.oneOrMore (.literal "x")) (.seq (.argument "<b>") (.seq (.argument "<c>") .empty)))

/-- The usage of a command that takes such parts, and then any words. -/
def wrapUsage : Usage where
  forms := ["wrap (x... <b> <c>)... [<r>...]"]
  pattern := .seq (.oneOrMore wrapRound)
    (.seq (.optional (.seq (.oneOrMore (.argument "<r>")) .empty)) .empty)

/-- It does not do to drop the condition on the continuation: what it puts on the trail before it
    fails stays there behind an option.  Nor is the longest match of a repeated part the first one:
    each round takes as many words as it can, and here the first one leaves two of them, although
    two shorter rounds take all. -/
theorem trail_left_behind :
    (¬ ∀ (p : Pattern) (k : Pattern.Continuation) (words : List String) (trail : Pattern.Trail),
      p.walk k words trail =
        match (p.results words).find? fun m => (k m.1 (m.2.reverse ++ trail)).1 with
        | some m => (true, (k m.1 (m.2.reverse ++ trail)).2)
        | none => (false, trail)) ∧
    ofHelp? "Usage: wrap (x... <b> <c>)... [<r>...]" = .ok (some wrapUsage) ∧
    ((Pattern.oneOrMore wrapRound).results ["x", "x", "p", "x", "q", "r"]).map (·.1) =
      [["q", "r"], [], ["x", "q", "r"]] ∧
    ∃ args, wrapUsage.apply ["wrap", "x", "x", "p", "x", "q", "r"] = .ok args ∧
      args.value? "<r>" = some (.list ["q", "r"]) := by
  refine ⟨fun h => ?_, rfl, by decide +kernel, ?_⟩
  · -- the option passes the trail on as it is, so nothing takes the word back
    have hflag := h (.flag "-f") (fun _ trail => (false, .word "x" :: trail)) [] []
    cases hflag
  · have hmatch : wrapUsage.pattern.match? ["x", "x", "p", "x", "q", "r"] =
        some [.word "x", .word "x", .value "<b>" "p", .value "<c>" "x", .value "<r>" "q",
          .value "<r>" "r"] := by decide +kernel
    have hsplit : wrapUsage.split? ["x", "x", "p", "x", "q", "r"] =
        some (["x", "x", "p", "x", "q", "r"], []) := by decide +kernel
    exact ⟨_, apply_of_match? hsplit hmatch, by decide +kernel⟩

end NestedShell.Usage
