/-
  The matches of a pattern, as a list.

  Matching with a continuation tries the matches of a pattern one after the other, until the
  continuation accepts one.  Here they are listed instead, each with the words that it leaves and
  the words that it captures, in the order in which they are tried.

  * `Pattern.results` is the list, `Pattern.repetitions` the list for a repeated part;
  * `Restores`: a continuation that leaves the trail as it was when it fails;
  * `tries` attempts the results of a list one after the other, each with its captures on the trail;
  * `Pattern.walk_eq_tries`: so does `walk`, although it shares one trail among them;
  * `Pattern.match?_eq_findSome?`: `match?` takes the first result that leaves no words.
-/
import NestedShell.Usage.Pattern

namespace NestedShell.Usage.Pattern

/-- The words that are left by a match, and the captures of it in order. -/
abbrev Result := List String × List Capture

/-- The results of a part that matches once or several times, as often as possible first. -/
def repetitions (once : List String → List Result) (words : List String) : List Result :=
  (once words).flatMap fun m =>
    (if _h : m.1.length < words.length then
      (repetitions once m.1).map fun m' => (m'.1, m.2 ++ m'.2)
    else []) ++ [m]
termination_by words.length

/-- The results of matching a first part of the words, in the order in which they are tried. -/
def results : Pattern → List String → List Result
  | literal word, words =>
    match words with
    | [] => []
    | w :: rest => if w = word then [(rest, [.word word])] else []
  | argument name, words =>
    match words with
    | [] => []
    | w :: rest => [(rest, [.value name w])]
  | flag _, words | valued _, words | empty, words => [(words, [])]
  | seq p q, words =>
    (p.results words).flatMap fun m => (q.results m.1).map fun m' => (m'.1, m.2 ++ m'.2)
  | alt p q, words => p.results words ++ q.results words
  | .optional p, words => p.results words ++ [(words, [])]
  | group p, words => p.results words
  | oneOrMore p, words => repetitions p.results words

/-! ## Attempts -/

/-- An attempt that leaves the trail as it was when it fails. -/
def Attempt.Restores (a : Attempt) : Prop := ∀ trail, (a trail).1 = false → (a trail).2 = trail

/-- A continuation that leaves the trail as it was when it fails. -/
def Restores (k : Continuation) : Prop := ∀ rest, Attempt.Restores (k rest)

/-- Attempts results one after the other, each with its captures on the trail from before. -/
def tries (k : Continuation) : List Result → Trail → Bool × Trail
  | [], trail => (false, trail)
  | m :: rs, trail =>
    match k m.1 (m.2.reverse ++ trail) with
    | (true, trail') => (true, trail')
    | (false, _) => tries k rs trail

theorem restores_tries (k : Continuation) (rs : List Result) :
    Attempt.Restores (tries k rs) := by
  intro trail hfails
  induction rs with
  | nil => rfl
  | cons m rs ih =>
    rw [tries] at hfails ⊢
    generalize k m.1 (m.2.reverse ++ trail) = answer at hfails ⊢
    rcases answer with ⟨_ | _, trail'⟩
    · exact ih hfails
    · cases hfails

/-- Attempts fail as `fail` does where they restore the trail. -/
theorem Attempt.Restores.eq_of_fails {a : Attempt} (h : a.Restores) {trail trail' : Trail}
    (hfails : a trail = (false, trail')) : trail' = trail := by
  have hsame := h trail
  rw [hfails] at hsame
  exact hsame rfl

/-- One result without captures is what the continuation is given itself. -/
theorem tries_singleton {k : Continuation} (hk : Restores k) (rest : List String) :
    tries k [(rest, [])] = k rest := by
  funext trail
  rw [tries, List.reverse_nil, List.nil_append]
  rcases hrest : k rest trail with ⟨_ | _, trail'⟩
  · rw [(hk rest).eq_of_fails hrest]
    rfl
  · rfl

/-- A capture that is noted is taken back when the attempt fails. -/
theorem tries_noting {k : Continuation} (hk : Restores k) (rest : List String) (c : Capture) :
    tries k [(rest, [c])] = Attempt.noting c (k rest) := by
  funext trail
  rw [tries, Attempt.noting, List.reverse_singleton, List.singleton_append]
  rcases hrest : k rest (c :: trail) with ⟨_ | _, trail'⟩
  · rw [(hk rest).eq_of_fails hrest]
    simp [tries]
  · rfl

@[simp] theorem tries_append (k : Continuation) (rs rs' : List Result) :
    tries k (rs ++ rs') = Attempt.orElse (tries k rs) (tries k rs') := by
  funext trail
  induction rs with
  | nil => rfl
  | cons m rs ih =>
    rw [List.cons_append, tries, ih, Attempt.orElse, Attempt.orElse, tries]
    rcases k m.1 (m.2.reverse ++ trail) with ⟨_ | _, trail'⟩ <;> rfl

/-- Captures from before may be counted among those of every result. -/
theorem tries_map (k : Continuation) (caps : List Capture) (rs : List Result) (trail : Trail) :
    tries k (rs.map fun m => (m.1, caps ++ m.2)) trail =
      match tries k rs (caps.reverse ++ trail) with
      | (true, trail') => (true, trail')
      | (false, _) => (false, trail) := by
  induction rs with
  | nil => rfl
  | cons m rs ih =>
    rw [List.map_cons, tries, tries, ih, List.reverse_append, List.append_assoc]
    rcases k m.1 (m.2.reverse ++ (caps.reverse ++ trail)) with ⟨_ | _, trail'⟩ <;> rfl

/-- **Results of results** are attempted depth first. -/
theorem tries_flatMap (k : Continuation) (next : List String → List Result) (rs : List Result) :
    tries k (rs.flatMap fun m => (next m.1).map fun m' => (m'.1, m.2 ++ m'.2)) =
      tries (fun rest => tries k (next rest)) rs := by
  induction rs with
  | nil => rfl
  | cons m rs ih =>
    funext trail
    rw [List.flatMap_cons, tries_append, Attempt.orElse, tries_map, tries, ih]
    rcases tries k (next m.1) (m.2.reverse ++ trail) with ⟨_ | _, trail'⟩ <;> rfl

/-! ## Matching -/

/-- Repeating a part whose results are known. -/
theorem rounds_eq_tries {once : Continuation → Continuation} {res : List String → List Result}
    (honce : ∀ k words, Restores k → once k words = tries k (res words)) {k : Continuation}
    (hk : Restores k) (words : List String) :
    rounds once k words = tries k (repetitions res words) := by
  -- the guard of the recursion makes the words that are left shorter
  induction hn : words.length using Nat.strongRecOn generalizing words with
  | ind n ih =>
    subst hn
    let again (rest : List String) : List Result :=
      (if _h : rest.length < words.length then repetitions res rest else []) ++ [(rest, [])]
    have hagain : (fun rest => Attempt.orElse
        (if _h : rest.length < words.length then rounds once k rest else Attempt.fail) (k rest)) =
        fun rest => tries k (again rest) := by
      funext rest
      rw [tries_append, tries_singleton hk]
      split
      · rename_i h
        rw [ih _ h rest rfl]
      · rfl
    have hresults : repetitions res words =
        (res words).flatMap fun m => (again m.1).map fun m' => (m'.1, m.2 ++ m'.2) := by
      rw [repetitions]
      congr 1
      funext m
      simp only [again, List.map_append, List.map_cons, List.map_nil, List.append_nil]
      split <;> rfl
    rw [rounds, hagain, honce _ _ fun rest => restores_tries k _, hresults, tries_flatMap]

/-- **Matching with a continuation** attempts the results, in order, and shares one trail among
    them. -/
theorem walk_eq_tries (p : Pattern) {k : Continuation} (hk : Restores k) (words : List String) :
    p.walk k words = tries k (p.results words) := by
  induction p generalizing k words with
  | literal word =>
    cases words with
    | nil => rfl
    | cons w rest =>
      simp only [walk, results]
      split
      · rw [tries_noting hk]
      · rfl
  | argument name =>
    cases words with
    | nil => rfl
    | cons w rest => simp only [walk, results, tries_noting hk]
  | flag | valued | empty => simp only [walk, results, tries_singleton hk]
  | seq p q ihp ihq =>
    have hq : q.walk k = fun rest => tries k (q.results rest) := funext fun rest => ihq hk rest
    rw [walk, hq, ihp (fun rest => restores_tries k _), results, tries_flatMap]
  | alt p q ihp ihq => simp only [walk, ihp hk, ihq hk, results, tries_append]
  | optional p ih => simp only [walk, ih hk, results, tries_append, tries_singleton hk]
  | group p ih => rw [walk, ih hk, results]
  | oneOrMore p ih =>
    rw [walk, results, rounds_eq_tries (fun k words hk => ih hk words) hk]

/-- The captures of the first result that leaves no words. -/
theorem match?_eq_findSome? (p : Pattern) (words : List String) :
    p.match? words = (p.results words).findSome? fun m => if m.1 = [] then some m.2 else none := by
  have hk : Restores fun rest trail => (rest = [], trail) := fun rest trail _ => rfl
  rw [match?, walk_eq_tries p hk]
  induction p.results words with
  | nil => rfl
  | cons m rs ih =>
    rw [tries, List.findSome?_cons]
    by_cases h : m.1 = []
    · simp [h]
    · simpa [h] using ih

end NestedShell.Usage.Pattern
