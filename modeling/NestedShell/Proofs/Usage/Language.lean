/-
  The language of a pattern, and which command lines a usage accepts.

  A pattern denotes a set of lists of words.  An option matches no word; a repeated part denotes
  one or several lists of its element, put together, and some of them may be empty.

  * `Pattern.language` is the language of a pattern, `repeatedLanguage` that of a repeated part;
  * `Pattern.leaves_iff`: the results of a pattern leave what follows a list of its language, so
    no match is lost by trying the longer ones first or by not repeating an empty one;
  * `Usage.apply_eq_ok_iff`: a command line is bound iff the words that are left when the options
    are taken out are in the language of the usage; any other is a usage fault.
-/
import Mathlib.Computability.Language
import NestedShell.Usage.Grammar
import NestedShell.Proofs.Usage.Results

namespace NestedShell.Usage

/-! ## Languages -/

/-- One or several lists of a language, put together. -/
def repeatedLanguage (L : Language String) : Language String :=
  {ws | ∃ parts : List (List String), parts ≠ [] ∧ (∀ part ∈ parts, part ∈ L) ∧
    parts.flatten = ws}

namespace Pattern

/-- The lists of words that a pattern denotes. -/
def language : Pattern → Language String
  | literal word => {[word]}
  | argument _ => {ws | ∃ word, ws = [word]}
  | flag _ | valued _ | empty => 1
  | seq p q => p.language * q.language
  | alt p q => p.language + q.language
  | .optional p => p.language + 1
  | group p => p.language
  | oneOrMore p => repeatedLanguage p.language

@[simp] theorem mem_language_literal (word : String) (ws : List String) :
    ws ∈ (literal word).language ↔ ws = [word] := Iff.rfl

@[simp] theorem mem_language_argument (name : String) (ws : List String) :
    ws ∈ (argument name).language ↔ ∃ word, ws = [word] := Iff.rfl

/-! ## What a match leaves -/

/-- Whether some result leaves certain words. -/
def Leaves (rs : List Result) (rest : List String) : Prop := ∃ caps, (rest, caps) ∈ rs

@[simp] theorem leaves_nil (rest : List String) : ¬ Leaves [] rest := by simp [Leaves]

@[simp] theorem leaves_singleton (m : Result) (rest : List String) :
    Leaves [m] rest ↔ m.1 = rest := by
  constructor
  · rintro ⟨caps, h⟩
    rw [← List.mem_singleton.1 h]
  · rintro rfl
    exact ⟨m.2, List.mem_singleton_self _⟩

@[simp] theorem leaves_append (rs rs' : List Result) (rest : List String) :
    Leaves (rs ++ rs') rest ↔ Leaves rs rest ∨ Leaves rs' rest := by
  simp only [Leaves, List.mem_append, exists_or]

@[simp] theorem leaves_map (caps : List Capture) (rs : List Result) (rest : List String) :
    Leaves (rs.map fun m => (m.1, caps ++ m.2)) rest ↔ Leaves rs rest := by
  constructor
  · rintro ⟨_, h⟩
    obtain ⟨m, hm, he⟩ := List.mem_map.1 h
    cases he
    exact ⟨m.2, hm⟩
  · rintro ⟨c, h⟩
    exact ⟨caps ++ c, List.mem_map.2 ⟨_, h, rfl⟩⟩

theorem leaves_flatMap (rs : List Result) (next : Result → List Result) (rest : List String) :
    Leaves (rs.flatMap next) rest ↔ ∃ m ∈ rs, Leaves (next m) rest := by
  constructor
  · rintro ⟨caps, h⟩
    obtain ⟨m, hm, h⟩ := List.mem_flatMap.1 h
    exact ⟨m, hm, caps, h⟩
  · rintro ⟨m, hm, caps, h⟩
    exact ⟨caps, List.mem_flatMap.2 ⟨m, hm, h⟩⟩

section
variable {res : List String → List Result} {L : Language String}

/-- The results of a repeated part leave what follows some lists of its element. -/
theorem exists_repeated_of_leaves
    (hres : ∀ words rest, Leaves (res words) rest ↔ ∃ u ∈ L, u ++ rest = words)
    {words rest : List String} (h : Leaves (repetitions res words) rest) :
    ∃ u ∈ repeatedLanguage L, u ++ rest = words := by
  induction hn : words.length using Nat.strongRecOn generalizing words with
  | ind n ih =>
    subst hn
    rw [repetitions, leaves_flatMap] at h
    obtain ⟨⟨mid, caps⟩, hm, h⟩ := h
    obtain ⟨u, hu, rfl⟩ := (hres words mid).1 ⟨caps, hm⟩
    rw [leaves_append, leaves_singleton] at h
    rcases h with h | rfl
    · split at h
      · rename_i hlt
        obtain ⟨_, ⟨parts, -, hparts, rfl⟩, rfl⟩ := ih _ hlt ((leaves_map ..).1 h) rfl
        refine ⟨u ++ parts.flatten, ⟨u :: parts, by simp, ?_, rfl⟩, by simp⟩
        intro part hpart
        rcases List.mem_cons.1 hpart with rfl | hpart
        exacts [hu, hparts part hpart]
      · exact absurd h (leaves_nil rest)
    · exact ⟨u, ⟨[u], by simp, by simpa using hu, by simp⟩, rfl⟩

/-- Every way to repeat an element is found.  Empty lists among the repeated ones are not tried,
    and they are not needed. -/
theorem leaves_repetitions
    (hres : ∀ words rest, Leaves (res words) rest ↔ ∃ u ∈ L, u ++ rest = words)
    (rest : List String) {parts : List (List String)} (hne : parts ≠ [])
    (hparts : ∀ part ∈ parts, part ∈ L) :
    Leaves (repetitions res (parts.flatten ++ rest)) rest := by
  induction parts with
  | nil => exact absurd rfl hne
  | cons part parts ih =>
    obtain ⟨hpart, hparts⟩ := List.forall_mem_cons.1 hparts
    rw [List.flatten_cons, List.append_assoc]
    by_cases hlast : parts = []
    · subst hlast
      obtain ⟨caps, hm⟩ := (hres _ rest).2 ⟨part, hpart, rfl⟩
      rw [List.flatten_nil, List.nil_append, repetitions, leaves_flatMap]
      exact ⟨_, hm, by simp⟩
    by_cases hempty : part = []
    · rw [hempty, List.nil_append]
      exact ih hlast hparts
    · obtain ⟨caps, hm⟩ := (hres _ (parts.flatten ++ rest)).2 ⟨part, hpart, rfl⟩
      have hlt : (parts.flatten ++ rest).length < (part ++ (parts.flatten ++ rest)).length := by
        have := List.length_pos_iff.2 hempty
        simp only [List.length_append]
        omega
      rw [repetitions, leaves_flatMap]
      refine ⟨_, hm, ?_⟩
      rw [dif_pos hlt, leaves_append, leaves_map]
      exact Or.inl (ih hlast hparts)

end

/-- **The results of a pattern** leave exactly what follows a list of its language. -/
theorem leaves_iff (p : Pattern) (words rest : List String) :
    Leaves (p.results words) rest ↔ ∃ u ∈ p.language, u ++ rest = words := by
  induction p generalizing words rest with
  | literal word =>
    cases words with
    | nil => simp [results]
    | cons w ws =>
      simp only [results]
      split <;> simp_all [eq_comm]
  | argument name =>
    cases words with
    | nil => simp [results]
    | cons w ws =>
      simp only [results, leaves_singleton, mem_language_argument]
      constructor
      · rintro rfl
        exact ⟨[w], ⟨w, rfl⟩, rfl⟩
      · rintro ⟨_, ⟨w', rfl⟩, h⟩
        exact (List.cons.inj h).2.symm
  | flag | valued | empty => simp [results, language, eq_comm]
  | seq p q ihp ihq =>
    simp only [results, leaves_flatMap, leaves_map, ihq, language, Language.mem_mul]
    constructor
    · rintro ⟨⟨mid, caps⟩, hm, v, hv, rfl⟩
      obtain ⟨u, hu, rfl⟩ := (ihp words _).1 ⟨caps, hm⟩
      exact ⟨u ++ v, ⟨u, hu, v, hv, rfl⟩, by simp⟩
    · rintro ⟨_, ⟨u, hu, v, hv, rfl⟩, rfl⟩
      obtain ⟨caps, hm⟩ := (ihp _ (v ++ rest)).2 ⟨u, hu, (List.append_assoc ..).symm⟩
      exact ⟨_, hm, v, hv, rfl⟩
  | alt p q ihp ihq =>
    simp only [results, leaves_append, ihp, ihq, language, Language.mem_add, or_and_right,
      exists_or]
  | optional p ih =>
    simp only [results, leaves_append, ih, leaves_singleton, language, Language.mem_add,
      Language.mem_one, or_and_right, exists_or, exists_eq_left, List.nil_append]
    rw [eq_comm (a := words)]
  | group p ih => exact ih words rest
  | oneOrMore p ih =>
    constructor
    · exact exists_repeated_of_leaves ih
    · rintro ⟨_, ⟨parts, hne, hparts, rfl⟩, rfl⟩
      exact leaves_repetitions ih rest hne hparts

/-- All words are matched iff they are in the language. -/
theorem isSome_match?_iff (p : Pattern) (words : List String) :
    (p.match? words).isSome ↔ words ∈ p.language := by
  rw [match?_eq_findSome?, List.findSome?_isSome_iff]
  constructor
  · rintro ⟨⟨rest, caps⟩, hm, h⟩
    have hrest : rest = [] := by
      by_contra hne
      simp [hne] at h
    subst hrest
    obtain ⟨u, hu, rfl⟩ := (p.leaves_iff words []).1 ⟨caps, hm⟩
    rwa [List.append_nil]
  · intro h
    obtain ⟨caps, hm⟩ := (p.leaves_iff words []).2 ⟨words, h, List.append_nil words⟩
    exact ⟨_, hm, by simp⟩

/-- An argument in front of a repeated one gives words back, and a repeated part may be empty. -/
example : (seq (oneOrMore (argument "<from>")) (seq (oneOrMore (.optional (argument "<option>")))
    (argument "<to>"))).match? ["a", "b", "c"] =
      some [.value "<from>" "a", .value "<from>" "b", .value "<to>" "c"] := by decide +kernel

end Pattern

/-! ## Command lines -/

/-- The only fault of taking out the options is the one of a command line that does not match. -/
theorem eq_mismatch_of_splitOptions_eq_error (u : Usage) {words : List String} {b : Bindings}
    {fault : Fault} (h : u.splitOptions words b = .error fault) : fault = u.mismatch := by
  fun_induction splitOptions u words b with
  | _ => simp_all

/-- Whether the options can be taken out of a command line, and leave words of the language. -/
def Accepts (u : Usage) (argv : List String) : Prop :=
  ∃ words b, u.splitOptions argv.tail u.pattern.defaults = .ok (words, b) ∧
    words ∈ u.pattern.language

/-- **The language of a usage.**  A command line is bound iff its options can be taken out and the
    words that are left are in the language of the pattern; any other is a usage fault. -/
theorem apply_eq_ok_iff (u : Usage) (argv : List String) :
    ((∃ args, u.apply argv = .ok args) ↔ u.Accepts argv) ∧
    ((∃ fault, u.apply argv = .error fault ∧ fault.kind = .usage) ↔ ¬ u.Accepts argv) := by
  cases hsplit : u.splitOptions argv.tail u.pattern.defaults with
  | error fault =>
    have happly : u.apply argv = .error fault := by rw [apply, hsplit]
    have hrefused : ¬ u.Accepts argv := by simp [Accepts, hsplit]
    have hkind : fault.kind = .usage := by
      rw [u.eq_mismatch_of_splitOptions_eq_error hsplit]
      rfl
    simp [happly, hrefused, hkind]
  | ok split =>
    obtain ⟨words, b⟩ := split
    have hmatch := u.pattern.isSome_match?_iff words
    cases hcaps : u.pattern.match? words with
    | none =>
      have happly : u.apply argv = .error u.mismatch := by simp only [apply, hsplit, hcaps]
      have hrefused : ¬ u.Accepts argv := by simp [Accepts, hsplit, ← hmatch, hcaps]
      have hkind : u.mismatch.kind = .usage := rfl
      simp [happly, hrefused, hkind]
    | some captures =>
      have happly : u.apply argv = .ok ⟨argv, bindCaptures b captures⟩ := by
        simp only [apply, hsplit, hcaps]
      have haccepted : u.Accepts argv := by simp [Accepts, hsplit, ← hmatch, hcaps]
      simp [happly, haccepted]

end NestedShell.Usage
