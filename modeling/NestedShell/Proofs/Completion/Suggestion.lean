/-
  The suggestion is the best candidate.

  A candidate that the word is the start of goes before one that is only close to it.  Among several
  the least one wins, by its length or by its distance, and among equals the first one.

  * `IsFirstLeast`: an element is the first one of the least among those with a property;
    `firstLeast_filter_eq_some_iff`: so is the one that is found,
    `firstLeast_filter_eq_none_iff`: one is found unless there is none;
  * `Best`: what there is to suggest for a word; `suggestion?_eq_iff`: this is what is suggested.
-/
import NestedShell.Proofs.Completion.Distance
import NestedShell.Proofs.Text.Cut

namespace NestedShell.Suggestion

/-! ## The first of the least -/

section
variable {α : Type}

/-- The element has the property, and a measure below that of all such elements in front of it and
    not above that of any behind it. -/
def IsFirstLeast (P : α → Prop) (measure : α → Nat) (xs : List α) (x : α) : Prop :=
  P x ∧ ∃ front back, xs = front ++ x :: back ∧
    (∀ y ∈ front, P y → measure x < measure y) ∧ ∀ y ∈ back, P y → measure x ≤ measure y

variable {P : α → Prop} {measure : α → Nat} {x y : α} {xs : List α}

theorem IsFirstLeast.mem (h : IsFirstLeast P measure xs x) : x ∈ xs := by
  obtain ⟨-, front, back, rfl, -, -⟩ := h
  simp

theorem IsFirstLeast.le (h : IsFirstLeast P measure xs x) :
    ∀ z ∈ xs, P z → measure x ≤ measure z := by
  obtain ⟨-, front, back, rfl, hfront, hback⟩ := h
  intro z hz hP
  rcases List.mem_append.1 hz with hz | hz
  · exact (hfront z hz hP).le
  · rcases List.mem_cons.1 hz with rfl | hz
    · exact le_rfl
    · exact hback z hz hP

/-- The first of the least is the first element, or the first of the least among the others. -/
theorem isFirstLeast_cons :
    IsFirstLeast P measure (y :: xs) x ↔
      (P y ∧ x = y ∧ ∀ z ∈ xs, P z → measure y ≤ measure z) ∨
        (IsFirstLeast P measure xs x ∧ (P y → measure x < measure y)) := by
  constructor
  · rintro ⟨hx, front, back, hxs, hfront, hback⟩
    cases front with
    | nil =>
      obtain ⟨rfl, rfl⟩ := List.cons.inj hxs
      exact .inl ⟨hx, rfl, hback⟩
    | cons z front =>
      obtain ⟨rfl, rfl⟩ := List.cons.inj hxs
      obtain ⟨hy, hfront⟩ := List.forall_mem_cons.1 hfront
      exact .inr ⟨⟨hx, front, back, rfl, hfront, hback⟩, hy⟩
  · rintro (⟨hy, rfl, hback⟩ | ⟨⟨hx, front, back, rfl, hfront, hback⟩, hy⟩)
    · exact ⟨hy, [], xs, rfl, by simp, hback⟩
    · exact ⟨hx, y :: front, back, rfl, List.forall_mem_cons.2 ⟨hy, hfront⟩, hback⟩

theorem firstLeast_eq_none_iff : firstLeast measure xs = none ↔ xs = [] := by
  cases xs with
  | nil => exact ⟨fun _ => rfl, fun _ => rfl⟩
  | cons x xs =>
    rw [firstLeast]
    split
    · simp
    · split <;> simp

/-- **What is found** is the first of the least. -/
theorem firstLeast_eq_some_iff :
    firstLeast measure xs = some x ↔ IsFirstLeast (fun _ => True) measure xs x := by
  induction xs generalizing x with
  | nil => simp [firstLeast, IsFirstLeast]
  | cons y ys ih =>
    rw [isFirstLeast_cons, firstLeast, ← ih]
    cases hrest : firstLeast measure ys with
    | none =>
      obtain rfl := firstLeast_eq_none_iff.1 hrest
      simp [eq_comm]
    | some z =>
      have hz := ih.1 hrest
      dsimp only
      split
      · rename_i hless
        constructor
        · rintro ⟨rfl⟩
          exact .inr ⟨rfl, fun _ => hless⟩
        · rintro (⟨-, rfl, hle⟩ | ⟨h, -⟩)
          · exact absurd hless (hle z hz.mem trivial).not_gt
          · exact h
      · rename_i hle
        constructor
        · rintro ⟨rfl⟩
          exact .inl ⟨trivial, rfl, fun w hw hP => (not_lt.1 hle).trans (hz.le w hw hP)⟩
        · rintro (⟨-, rfl, -⟩ | ⟨⟨rfl⟩, hless⟩)
          · rfl
          · exact absurd (hless trivial) hle

/-- The elements without the property do not matter. -/
theorem isFirstLeast_filter {p : α → Bool} :
    IsFirstLeast (fun _ => True) measure (xs.filter p) x ↔
      IsFirstLeast (p · = true) measure xs x := by
  induction xs generalizing x with
  | nil => simp [IsFirstLeast]
  | cons y ys ih =>
    rw [isFirstLeast_cons, List.filter_cons, ← ih]
    split
    · rename_i hy
      rw [isFirstLeast_cons]
      simp [hy]
    · rename_i hy
      simp [hy]

theorem IsFirstLeast.congr {P' : α → Prop} {measure' : α → Nat} (hP : ∀ x, P x ↔ P' x)
    (hmeasure : ∀ x, P x → measure x = measure' x) (h : IsFirstLeast P measure xs x) :
    IsFirstLeast P' measure' xs x := by
  obtain ⟨hx, front, back, rfl, hfront, hback⟩ := h
  refine ⟨(hP x).1 hx, front, back, rfl, fun y hy hy' => ?_, fun y hy hy' => ?_⟩
  · rw [← hmeasure x hx, ← hmeasure y ((hP y).2 hy')]
    exact hfront y hy ((hP y).2 hy')
  · rw [← hmeasure x hx, ← hmeasure y ((hP y).2 hy')]
    exact hback y hy ((hP y).2 hy')

/-- The same for a measure that agrees with another one on the elements with the property. -/
theorem firstLeast_filter_eq_some_iff {p : α → Bool} {measure' : α → Nat}
    (hP : ∀ x, p x = true ↔ P x) (hmeasure : ∀ x, P x → measure x = measure' x) :
    firstLeast measure (xs.filter p) = some x ↔ IsFirstLeast P measure' xs x := by
  rw [firstLeast_eq_some_iff, isFirstLeast_filter]
  exact ⟨.congr hP fun x hx => hmeasure x ((hP x).1 hx),
    .congr (fun x => (hP x).symm) fun x hx => (hmeasure x hx).symm⟩

theorem firstLeast_filter_eq_none_iff {p : α → Bool} (hP : ∀ x, p x = true ↔ P x) :
    firstLeast measure (xs.filter p) = none ↔ ∀ x ∈ xs, ¬P x := by
  rw [firstLeast_eq_none_iff, List.filter_eq_nil_iff]
  simp only [hP]

end

/-! ## The suggestion -/

/-- What there is to suggest for a word. -/
inductive Best (word : String) (candidates : List String) : Option String → Prop where
  /-- the first of the shortest candidates that start with the word -/
  | completed {c : String}
      (first : IsFirstLeast (fun c => ∃ rest, c = word ++ rest) String.utf8ByteSize candidates c) :
    Best word candidates (some c)
  /-- if there is none, the first of the closest candidates, at most two edits away -/
  | corrected {c : String} (incomplete : ∀ c ∈ candidates, ¬∃ rest, c = word ++ rest)
      (first : IsFirstLeast (fun c => c ≠ "" ∧ levenshtein word.toList c.toList ≤ 2)
        (fun c => levenshtein word.toList c.toList) candidates c) :
    Best word candidates (some c)
  | nothing (incomplete : ∀ c ∈ candidates, ¬∃ rest, c = word ++ rest)
      (far : ∀ c ∈ candidates, c ≠ "" → 2 < levenshtein word.toList c.toList) :
    Best word candidates none

/-- **The suggestion is the best candidate**, if there is one that is good enough. -/
theorem suggestion?_eq_iff (word : String) (candidates : List String) (answer : Option String) :
    suggestion? word candidates = answer ↔ Best word candidates answer := by
  have hexact (c : String) := exact_editDistance word c 2
  have hstart (c : String) : Text.startsWith word c = true ↔ ∃ rest, c = word ++ rest :=
    Text.startsWith_iff
  have hclose (c : String) : (c != "" && editDistance word c reach ≤ reach) = true ↔
      c ≠ "" ∧ levenshtein word.toList c.toList ≤ 2 := by
    rw [Bool.and_eq_true, bne_iff_ne, decide_eq_true_iff, reach, (hexact c).le_iff]
  have hcompleted (c : String) :
      firstLeast String.utf8ByteSize (candidates.filter (Text.startsWith word)) = some c ↔
        IsFirstLeast (fun c => ∃ rest, c = word ++ rest) String.utf8ByteSize candidates c :=
    firstLeast_filter_eq_some_iff hstart fun _ _ => rfl
  have hcorrected (c : String) :
      firstLeast (editDistance word · reach)
          (candidates.filter fun c => c != "" && editDistance word c reach ≤ reach) = some c ↔
        IsFirstLeast (fun c => c ≠ "" ∧ levenshtein word.toList c.toList ≤ 2)
          (fun c => levenshtein word.toList c.toList) candidates c :=
    firstLeast_filter_eq_some_iff hclose fun c hc => (hexact c).eq hc.2
  have hincomplete :
      firstLeast String.utf8ByteSize (candidates.filter (Text.startsWith word)) = none ↔
        ∀ c ∈ candidates, ¬∃ rest, c = word ++ rest :=
    firstLeast_filter_eq_none_iff hstart
  have hfar :
      firstLeast (editDistance word · reach)
          (candidates.filter fun c => c != "" && editDistance word c reach ≤ reach) = none ↔
        ∀ c ∈ candidates, ¬(c ≠ "" ∧ levenshtein word.toList c.toList ≤ 2) :=
    firstLeast_filter_eq_none_iff hclose
  simp only [not_and, not_le] at hfar
  rw [suggestion?]
  constructor
  · rintro rfl
    split
    · rename_i c hc
      exact .completed ((hcompleted c).1 hc)
    · rename_i hnone
      cases hc : firstLeast (editDistance word · reach)
        (candidates.filter fun c => c != "" && editDistance word c reach ≤ reach) with
      | some c => exact .corrected (hincomplete.1 hnone) ((hcorrected c).1 hc)
      | none => exact .nothing (hincomplete.1 hnone) (hfar.1 hc)
  · intro h
    cases h with
    | completed first => rw [(hcompleted _).2 first]
    | corrected incomplete first =>
      rw [hincomplete.2 incomplete]
      exact (hcorrected _).2 first
    | nothing incomplete far =>
      rw [hincomplete.2 incomplete]
      exact hfar.2 far

/-- The first of two candidates that are one edit away; the empty one does not count. -/
example : suggestion? "ab" ["", "xyz", "bb", "aa"] = some "bb" := by decide

end NestedShell.Suggestion
