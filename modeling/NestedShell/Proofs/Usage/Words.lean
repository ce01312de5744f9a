/-
  Usages that take any number of words.

  Such a usage declares no options, so every word is taken as it is: only `--` would end the
  options.

  * `Pattern.anyNumber`: the pattern of such a usage; `match?_anyNumber`: it captures all words;
  * `splitOptions_eq_self`: without declared options nothing is taken out of the words;
  * `apply_anyNumber`: the words are bound to the name of the argument, all of them and in order.
-/
import NestedShell.Usage.Grammar
import NestedShell.Proofs.Usage.Results
import NestedShell.Proofs.Usage.Split

namespace NestedShell.Usage

/-! ## Matching -/

namespace Pattern

theorem repetitions_argument_nil (name : String) :
    repetitions (argument name).results [] = [] := by
  rw [repetitions]
  rfl

theorem repetitions_argument_cons (name word : String) (words : List String) :
    repetitions (argument name).results (word :: words) =
      (repetitions (argument name).results words).map (fun m => (m.1, .value name word :: m.2)) ++
        [(words, [.value name word])] := by
  have honce : (argument name).results (word :: words) = [(words, [.value name word])] := rfl
  rw [repetitions.eq_def _ (word :: words), honce]
  simp

/-- The first result of a repeated argument takes all words. -/
theorem exists_repetitions_argument (name word : String) (words : List String) :
    ∃ more, repetitions (argument name).results (word :: words) =
      ([], (word :: words).map (.value name)) :: more := by
  induction words generalizing word with
  | nil => exact ⟨[], by rw [repetitions_argument_cons, repetitions_argument_nil]; rfl⟩
  | cons next words ih =>
    obtain ⟨more, hmore⟩ := ih next
    exact ⟨_, by rw [repetitions_argument_cons, hmore]; rfl⟩

/-- The pattern of any number of words, bound to a name. -/
def anyNumber (name : String) : Pattern :=
  .seq (.optional (.seq (.oneOrMore (.argument name)) .empty)) .empty

/-- Such a pattern repeats the argument, or takes no words. -/
theorem results_anyNumber (name : String) (words : List String) :
    (anyNumber name).results words =
      repetitions (argument name).results words ++ [(words, [])] := by
  change List.flatMap (fun m => [(m.1, m.2 ++ [])]) (List.flatMap (fun m => [(m.1, m.2 ++ [])])
    (repetitions (argument name).results words) ++ [(words, [])]) = _
  simp

theorem match?_anyNumber (name : String) (words : List String) :
    (anyNumber name).match? words = some (words.map (.value name)) := by
  rw [match?_eq_findSome?, results_anyNumber]
  cases words with
  | nil => rw [repetitions_argument_nil]; rfl
  | cons word words =>
    obtain ⟨more, hmore⟩ := exists_repetitions_argument name word words
    rw [hmore]
    rfl

end Pattern

/-! ## Binding -/

/-- Without declared options no word is made of them. -/
theorem isCluster_eq_false {u : Usage} (hflags : u.pattern.flags = []) (word : String) :
    u.isCluster word = false := by
  by_contra htrue
  have htrue : 2 < word.utf8ByteSize ∧ Text.startsWith "-" word = true ∧
      Text.startsWith "--" word = false ∧ word.toList.tail = [] := by
    simpa [isCluster, hflags, List.eq_nil_iff_forall_not_mem] using htrue
  obtain ⟨hsize, hdash, -, htail⟩ := htrue
  obtain ⟨rest, rfl⟩ := Text.startsWith_iff.1 hdash
  obtain rfl : rest = "" := by simpa using htail
  exact absurd hsize (by decide)

/-- Without declared options all words are kept, unless one ends the options. -/
theorem splitOptions_eq_self {u : Usage} (hflags : u.pattern.flags = [])
    (hvalued : u.pattern.valuedOptions = []) {words : List String} (hwords : "--" ∉ words)
    (b : Bindings) : u.splitOptions words b = .ok (words, b) := by
  induction words with
  | nil => rfl
  | cons word words ih =>
    obtain ⟨hword, hwords⟩ := not_or.1 (List.mem_cons.not.1 hwords)
    have hassignment : u.assignment? word = none := by simp [assignment?, hvalued]
    have hcluster := isCluster_eq_false hflags word
    unfold splitOptions
    simp [Ne.symm hword, hflags, hvalued, hassignment, hcluster, ih hwords]

/-- The words of a repeated argument are bound to its name, in order. -/
theorem bindCaptures_list {b : Bindings} {name : String} {start : List String}
    (hb : b[name]? = some (.list start)) (words : List String) :
    (bindCaptures b (words.map (.value name)))[name]? = some (.list (start ++ words)) := by
  have hall : (words.map (Capture.value name)).filter (·.name = name) =
      words.map (.value name) := by
    rw [List.filter_eq_self]
    intro c hc
    obtain ⟨word, -, rfl⟩ := List.mem_map.1 hc
    simp [Capture.name]
  rw [getElem?_bindCaptures, hall, hb, foldl_update_list]

/-- A usage of any number of words binds them all. -/
theorem apply_anyNumber {u : Usage} {name : String} (hu : u.pattern = .anyNumber name)
    (command : String) {words : List String} (hwords : "--" ∉ words) :
    ∃ args, u.apply (command :: words) = .ok args ∧ args.name = command ∧
      args.list name = words := by
  have hsplit := splitOptions_eq_self (u := u) (by rw [hu]; rfl) (by rw [hu]; rfl) hwords
    u.pattern.defaults
  have hdefault : u.pattern.defaults[name]? = some (.list []) := by
    rw [hu]
    simp [Pattern.defaults, Pattern.anyNumber, Pattern.addDefaults]
  have hlist := bindCaptures_list hdefault words
  have hmatch : u.pattern.match? words = some (words.map (.value name)) := by
    rw [hu, Pattern.match?_anyNumber]
  have happly : u.apply (command :: words) = .ok
      ⟨command :: words, bindCaptures u.pattern.defaults (words.map (.value name))⟩ := by
    simp only [apply, List.tail_cons, hsplit, hmatch]
  refine ⟨_, happly, rfl, ?_⟩
  simp only [Arguments.list, Arguments.value?, hlist, List.nil_append]

end NestedShell.Usage
