/-
  The distance of two texts, and what is computed of it.

  The distance is computed row by row, and given up when a whole row is above a bound.  A row holds
  the distances of one start of the first text to all starts of the second, and edits that lead from
  text to text also lead from some start of the second text to the start of the first; so what a row
  is above, the distance is above as well.

  * `levenshtein` is the distance of two texts, `isLeast_levenshtein`: it is the least number of
    edits; `levenshtein_reverse`: it is the same from the other end;
  * `rowFrom`: a row of the table; `nextRow_rowFrom`: the next row follows from it;
  * `exists_start_le`: no distance is below all entries of an earlier row;
  * `Exact`: a number is exact within a bound; `exact_editDistance`: so is what is computed.
-/
import Mathlib.Order.Bounds.Basic
import NestedShell.Completion.Suggestion

namespace NestedShell.Suggestion

/-! ## The Levenshtein distance -/

/-- The distance of two texts, when inserting, deleting and replacing a character cost one each. -/
def levenshtein : List Char → List Char → Nat
  | [], ds => ds.length
  | _ :: cs, [] => cs.length + 1
  | c :: cs, d :: ds =>
    min (min (levenshtein (c :: cs) ds + 1) (levenshtein cs (d :: ds) + 1))
      (levenshtein cs ds + if c = d then 0 else 1)
termination_by cs ds => cs.length + ds.length

theorem levenshtein_nil (cs : List Char) : levenshtein cs [] = cs.length := by
  cases cs <;> simp [levenshtein]

section
variable (c d : Char) (cs ds : List Char)

theorem levenshtein_cons_left : levenshtein (c :: cs) ds ≤ levenshtein cs ds + 1 := by
  cases ds with
  | nil => simp [levenshtein_nil]
  | cons d ds =>
    rw [levenshtein]
    omega

theorem levenshtein_cons_right : levenshtein cs (d :: ds) ≤ levenshtein cs ds + 1 := by
  cases cs with
  | nil => simp [levenshtein]
  | cons c cs =>
    rw [levenshtein]
    omega

theorem levenshtein_cons_cons :
    levenshtein (c :: cs) (d :: ds) ≤ levenshtein cs ds + if c = d then 0 else 1 := by
  rw [levenshtein]
  omega

/-- What is done to the first characters: one is inserted, one is deleted, or one becomes the
    other. -/
theorem levenshtein_cases :
    levenshtein (c :: cs) (d :: ds) = levenshtein (c :: cs) ds + 1 ∨
      levenshtein (c :: cs) (d :: ds) = levenshtein cs (d :: ds) + 1 ∨
      levenshtein (c :: cs) (d :: ds) = levenshtein cs ds + if c = d then 0 else 1 := by
  rw [levenshtein]
  omega

end

theorem levenshtein_self (cs : List Char) : levenshtein cs cs = 0 := by
  induction cs with
  | nil => rw [levenshtein, List.length_nil]
  | cons c cs ih =>
    have hle := levenshtein_cons_cons c c cs cs
    rw [if_pos rfl, ih] at hle
    omega

/-! ## Edits -/

/-- One character is inserted, deleted or replaced. -/
inductive Edit : List Char → List Char → Prop where
  | insert (front back : List Char) (d : Char) : Edit (front ++ back) (front ++ d :: back)
  | delete (front back : List Char) (c : Char) : Edit (front ++ c :: back) (front ++ back)
  | replace (front back : List Char) (c d : Char) :
    Edit (front ++ c :: back) (front ++ d :: back)

/-- So many edits, one after the other. -/
inductive Edits : Nat → List Char → List Char → Prop where
  | none (cs : List Char) : Edits 0 cs cs
  | more {n : Nat} {cs ds es : List Char} (first : Edits n cs ds) (last : Edit ds es) :
    Edits (n + 1) cs es

theorem Edit.cons {cs ds : List Char} (h : Edit cs ds) (c : Char) : Edit (c :: cs) (c :: ds) := by
  cases h with
  | insert front back d => exact .insert (c :: front) back d
  | delete front back c' => exact .delete (c :: front) back c'
  | replace front back c' d => exact .replace (c :: front) back c' d

theorem Edit.reverse {cs ds : List Char} (h : Edit cs ds) : Edit cs.reverse ds.reverse := by
  cases h with
  | insert front back d => simpa using Edit.insert back.reverse front.reverse d
  | delete front back c => simpa using Edit.delete back.reverse front.reverse c
  | replace front back c d => simpa using Edit.replace back.reverse front.reverse c d

theorem Edits.cons {n : Nat} {cs ds : List Char} (h : Edits n cs ds) (c : Char) :
    Edits n (c :: cs) (c :: ds) := by
  induction h with
  | none cs => exact .none (c :: cs)
  | more _ last ih => exact .more ih (last.cons c)

theorem Edits.reverse {n : Nat} {cs ds : List Char} (h : Edits n cs ds) :
    Edits n cs.reverse ds.reverse := by
  induction h with
  | none cs => exact .none cs.reverse
  | more _ last ih => exact .more ih last.reverse

/-- Behind some edits the first character goes away. -/
theorem Edits.delete {n : Nat} {cs ds : List Char} (h : Edits n cs ds) (c : Char) :
    Edits (n + 1) (c :: cs) ds :=
  .more (h.cons c) (.delete [] ds c)

/-- Behind some edits a character comes in front. -/
theorem Edits.insert {n : Nat} {cs ds : List Char} (h : Edits n cs ds) (d : Char) :
    Edits (n + 1) cs (d :: ds) :=
  .more h (.insert [] ds d)

/-- Behind some edits the first character becomes another one, if it is not that one. -/
theorem Edits.replace {n : Nat} {cs ds : List Char} (h : Edits n cs ds) (c d : Char) :
    Edits (n + if c = d then 0 else 1) (c :: cs) (d :: ds) := by
  split
  · rename_i heq
    exact heq ▸ h.cons c
  · exact .more (h.cons c) (.replace [] ds c d)

/-- As many edits as the distance lead from one text to the other. -/
theorem edits_levenshtein (cs ds : List Char) : Edits (levenshtein cs ds) cs ds := by
  induction cs generalizing ds with
  | nil =>
    rw [levenshtein]
    induction ds with
    | nil => exact .none []
    | cons d ds ih => exact ih.insert d
  | cons c cs ih =>
    induction ds with
    | nil =>
      have hdelete := (ih []).delete c
      rwa [levenshtein_nil] at hdelete ⊢
    | cons d ds ihLeft =>
      obtain h | h | h := levenshtein_cases c d cs ds
      · exact h ▸ ihLeft.insert d
      · exact h ▸ (ih (d :: ds)).delete c
      · exact h ▸ (ih ds).replace c d

/-- No text is further from the second text than from the first one by more than one edit. -/
def Near (ds es : List Char) : Prop := ∀ cs, levenshtein cs es ≤ levenshtein cs ds + 1

theorem near_insert (d : Char) (ds : List Char) : Near ds (d :: ds) :=
  fun cs => levenshtein_cons_right d cs ds

theorem near_delete (d : Char) (ds : List Char) : Near (d :: ds) ds := by
  intro cs
  induction cs with
  | nil => simp only [levenshtein, List.length_cons]; omega
  | cons c cs ih =>
    have hdelete := levenshtein_cons_left c cs ds
    rw [levenshtein]
    omega

theorem near_replace (c d : Char) (ds : List Char) : Near (c :: ds) (d :: ds) := by
  intro cs
  induction cs with
  | nil => simp [levenshtein]
  | cons b cs ih =>
    rw [levenshtein, levenshtein]
    split <;> split <;> omega

theorem Near.cons {ds es : List Char} (h : Near ds es) (d : Char) : Near (d :: ds) (d :: es) := by
  intro cs
  induction cs with
  | nil => simpa [levenshtein] using h []
  | cons c cs ih =>
    have hleft := h (c :: cs)
    have hboth := h cs
    rw [levenshtein, levenshtein]
    omega

theorem Near.append {ds es : List Char} (h : Near ds es) (front : List Char) :
    Near (front ++ ds) (front ++ es) := by
  induction front with
  | nil => exact h
  | cons c front ih => exact ih.cons c

theorem Edit.near {ds es : List Char} (h : Edit ds es) : Near ds es := by
  cases h with
  | insert front back d => exact (near_insert d back).append front
  | delete front back c => exact (near_delete c back).append front
  | replace front back c d => exact (near_replace c d back).append front

theorem levenshtein_le_of_edits {n : Nat} {cs ds : List Char} (h : Edits n cs ds) :
    levenshtein cs ds ≤ n := by
  induction h with
  | none cs => exact (levenshtein_self cs).le
  | more _ last ih => exact (last.near _).trans (Nat.add_le_add_right ih 1)

/-- **The distance is the least number of edits** that lead from one text to the other. -/
theorem isLeast_levenshtein (cs ds : List Char) :
    IsLeast {n | Edits n cs ds} (levenshtein cs ds) :=
  ⟨edits_levenshtein cs ds, fun _ => levenshtein_le_of_edits⟩

theorem levenshtein_reverse (cs ds : List Char) :
    levenshtein cs.reverse ds.reverse = levenshtein cs ds := by
  have hle (cs ds : List Char) : levenshtein cs.reverse ds.reverse ≤ levenshtein cs ds :=
    levenshtein_le_of_edits (edits_levenshtein cs ds).reverse
  refine le_antisymm (hle cs ds) ?_
  simpa using hle cs.reverse ds.reverse

/-- The distance is told by the last characters as it is by the first ones. -/
theorem levenshtein_concat (cs ds : List Char) (c d : Char) :
    levenshtein (cs ++ [c]) (ds ++ [d]) =
      min (min (levenshtein (cs ++ [c]) ds + 1) (levenshtein cs (ds ++ [d]) + 1))
        (levenshtein cs ds + if c = d then 0 else 1) := by
  rw [← levenshtein_reverse (cs ++ [c]) (ds ++ [d]), ← levenshtein_reverse (cs ++ [c]) ds,
    ← levenshtein_reverse cs (ds ++ [d]), ← levenshtein_reverse cs ds]
  simp only [List.reverse_append, List.reverse_singleton, List.singleton_append]
  rw [levenshtein]

/-! ## Rows of the table -/

/-- The distances of a text to the starts of another one, from one start on. -/
def rowFrom (cs start : List Char) : List Char → List Nat
  | [] => [levenshtein cs start]
  | d :: ds => levenshtein cs start :: rowFrom cs (start ++ [d]) ds

theorem exists_rowFrom (cs start ds : List Char) :
    ∃ row, rowFrom cs start ds = levenshtein cs start :: row := by
  cases ds <;> exact ⟨_, rfl⟩

/-- **The next row** is the one of the text with one more character. -/
theorem nextRow_rowFrom (cs start ds : List Char) (c : Char) :
    nextRow c (levenshtein (cs ++ [c]) start) (rowFrom cs start ds) ds =
      rowFrom (cs ++ [c]) start ds := by
  induction ds generalizing start with
  | nil => rfl
  | cons d ds ih =>
    have hnext := ih (start ++ [d])
    rw [levenshtein_concat] at hnext
    obtain ⟨row, hrow⟩ := exists_rowFrom cs (start ++ [d]) ds
    rw [hrow] at hnext
    rw [rowFrom, rowFrom, hrow, nextRow, hnext]

/-- The first row counts the characters to insert. -/
theorem rowFrom_nil (start ds : List Char) :
    rowFrom [] start ds = List.range' start.length (ds.length + 1) := by
  induction ds generalizing start with
  | nil => simp [rowFrom, levenshtein]
  | cons d ds ih =>
    rw [rowFrom, ih, levenshtein, List.length_append]
    exact List.range'_succ.symm

theorem getLastD_rowFrom (cs start ds : List Char) :
    (rowFrom cs start ds).getLastD 0 = levenshtein cs (start ++ ds) := by
  induction ds generalizing start with
  | nil => simp [rowFrom]
  | cons d ds ih =>
    obtain ⟨row, hrow⟩ := exists_rowFrom cs (start ++ [d]) ds
    have hlast := ih (start ++ [d])
    rw [hrow] at hlast
    rw [rowFrom, hrow]
    simpa using hlast

theorem mem_rowFrom {cs start ds front : List Char} (h : front <+: ds) :
    levenshtein cs (start ++ front) ∈ rowFrom cs start ds := by
  induction ds generalizing start front with
  | nil =>
    obtain rfl := List.prefix_nil.1 h
    simp [rowFrom]
  | cons d ds ih =>
    rw [rowFrom]
    cases front with
    | nil => simp
    | cons c front =>
      obtain ⟨rfl, hfront⟩ := List.cons_prefix_cons.1 h
      have hmem : levenshtein cs (start ++ [c] ++ front) ∈ rowFrom cs (start ++ [c]) ds := ih hfront
      rw [List.append_assoc, List.singleton_append] at hmem
      exact List.mem_cons_of_mem _ hmem

/-- The edits of a longer text begin with those of its start, which lead to some start of the
    other. -/
theorem exists_start_le (cs more ds : List Char) :
    ∃ front, front <+: ds ∧ levenshtein cs front ≤ levenshtein (cs ++ more) ds := by
  induction cs generalizing ds with
  | nil => exact ⟨[], List.nil_prefix, by simp [levenshtein]⟩
  | cons c cs ih =>
    induction ds with
    | nil => exact ⟨[], List.nil_prefix, by simp [levenshtein]⟩
    | cons d ds ihLeft =>
      obtain h | h | h := levenshtein_cases c d (cs ++ more) ds
      · -- a character of the second text that is inserted belongs to its start
        obtain ⟨front, hfront, hle⟩ := ihLeft
        rw [List.cons_append] at hle ⊢
        have hcons := levenshtein_cons_right d (c :: cs) front
        exact ⟨d :: front, List.cons_prefix_cons.2 ⟨rfl, hfront⟩, by omega⟩
      · obtain ⟨front, hfront, hle⟩ := ih (d :: ds)
        have hcons := levenshtein_cons_left c cs front
        exact ⟨front, hfront, by rw [List.cons_append]; omega⟩
      · obtain ⟨front, hfront, hle⟩ := ih ds
        have hcons := levenshtein_cons_cons c d cs front
        exact ⟨d :: front, List.cons_prefix_cons.2 ⟨rfl, hfront⟩, by rw [List.cons_append]; omega⟩

/-- **No distance is below a whole row** that it is computed from. -/
theorem least_rowFrom_le (cs more ds : List Char) :
    (rowFrom cs [] ds).min?.getD 0 ≤ levenshtein (cs ++ more) ds := by
  obtain ⟨front, hfront, hle⟩ := exists_start_le cs more ds
  exact (List.min?_getD_le_of_mem (mem_rowFrom hfront)).trans hle

/-! ## What is computed -/

/-- A number that was found for another one is exact within a bound: it is never above the other,
    it is the same when the other is within the bound, and else it is above the bound as well. -/
structure Exact (bound actual found : Nat) : Prop where
  le : found ≤ actual
  eq : actual ≤ bound → found = actual
  above : bound < actual → bound < found

/-- Whether a number is within the bound can be told from what was found. -/
theorem Exact.le_iff {bound actual found : Nat} (h : Exact bound actual found) :
    found ≤ bound ↔ actual ≤ bound := by
  constructor
  · intro hfound
    by_contra hfar
    exact absurd hfound (h.above (not_le.1 hfar)).not_ge
  · exact h.le.trans

theorem exact_distanceFrom (bound : Nat) (start cs ds : List Char) :
    Exact bound (levenshtein (start ++ cs) ds)
      (distanceFrom bound ds start.length (rowFrom start [] ds) cs) := by
  induction cs generalizing start with
  | nil =>
    rw [distanceFrom, getLastD_rowFrom, List.append_nil, List.nil_append]
    exact ⟨le_rfl, fun _ => rfl, id⟩
  | cons c cs ih =>
    have hnext := ih (start ++ [c])
    have hleast := least_rowFrom_le (start ++ [c]) cs ds
    have hrow := nextRow_rowFrom start [] ds c
    have hmore : start ++ [c] ++ cs = start ++ c :: cs := List.append_cons .. |>.symm
    rw [levenshtein_nil, List.length_append, List.length_singleton] at hrow
    rw [List.length_append, List.length_singleton, hmore] at hnext
    rw [hmore] at hleast
    rw [distanceFrom, hrow]
    split
    · -- the whole row is above the bound, and the distance is not below it
      rename_i hgiveUp
      exact ⟨hleast, fun hwithin => absurd hleast (by omega), fun _ => hgiveUp⟩
    · exact hnext

/-- **What is computed is exact within the bound.** -/
theorem exact_editDistance (s t : String) (bound : Nat) :
    Exact bound (levenshtein s.toList t.toList) (editDistance s t bound) := by
  have hself (n : Nat) : Exact bound n n := ⟨le_rfl, fun _ => rfl, id⟩
  rw [editDistance]
  split
  · rename_i hs
    rw [hs, levenshtein]
    exact hself _
  · split
    · rename_i ht
      rw [ht, levenshtein_nil]
      exact hself _
    · have hfirst := rowFrom_nil [] t.toList
      rw [List.length_nil, ← List.range_eq_range'] at hfirst
      rw [← hfirst]
      exact exact_distanceFrom bound [] s.toList t.toList

/-- Three edits, and six of which at most two are of interest. -/
example : editDistance "kitten" "sitting" 5 = 3 ∧ editDistance "abcdef" "uvwxyz" 2 = 3 := by decide

end NestedShell.Suggestion
