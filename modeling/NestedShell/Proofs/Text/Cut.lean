/-
  Leading texts, cutting at a character, and blanks at the ends.

  * `startsWith_iff`: a text starts with another one iff it is that one with something behind it;
    `strip?_eq_some_iff`: which is what is left without it;
  * `eq_of_cutAt`, `cutAt_append`: a text is cut at the first place where the character stands;
  * `afterLast_append`: what follows a character is what follows the last one, if there is no other
    one in it;
  * `trim_eq_self`: a text without blanks is not trimmed.
-/
import Mathlib.Data.List.TakeDrop
import NestedShell.Text.Cut

namespace NestedShell.Text

/-! ## Leading texts -/

theorem startsWith_iff {p s : String} : startsWith p s = true ↔ ∃ rest, s = p ++ rest := by
  rw [startsWith, List.isPrefixOf_iff_prefix]
  constructor
  · rintro ⟨rest, h⟩
    exact ⟨String.ofList rest, String.toList_injective (by simp [h])⟩
  · rintro ⟨rest, rfl⟩
    exact ⟨rest.toList, by simp⟩

theorem startsWith_append {p s : String} (h : startsWith p s = true) (t : String) :
    startsWith p (s ++ t) = true := by
  obtain ⟨rest, rfl⟩ := startsWith_iff.1 h
  exact startsWith_iff.2 ⟨rest ++ t, String.append_assoc ..⟩

theorem strip?_eq_some_iff {p s rest : String} : strip? p s = some rest ↔ s = p ++ rest := by
  rw [strip?]
  constructor
  · intro h
    split at h
    · rename_i hstart
      obtain ⟨more, rfl⟩ := startsWith_iff.1 hstart
      have hdrop : String.ofList ((p ++ more).toList.drop p.toList.length) = more := by simp
      rw [← Option.some.inj h, hdrop]
    · cases h
  · rintro rfl
    rw [if_pos (startsWith_iff.2 ⟨rest, rfl⟩)]
    simp

/-! ## Cutting -/

/-- What is cut is put together from the two parts. -/
theorem eq_of_cutAt {c : Char} {s before after : String} (h : cutAt c s = some (before, after)) :
    s = before ++ String.singleton c ++ after ∧ c ∉ before.toList := by
  rw [cutAt, List.span_eq_takeWhile_dropWhile] at h
  have hhead := List.head?_dropWhile_not (· != c) s.toList
  have hall := List.all_takeWhile (p := (· != c)) (l := s.toList)
  have hboth := List.takeWhile_append_dropWhile (p := (· != c)) (l := s.toList)
  split at h
  · cases h
  · rename_i front d rest hcut
    obtain ⟨rfl, rfl⟩ : String.ofList front = before ∧ String.ofList rest = after := by
      simpa using h
    obtain ⟨hfront, hrest⟩ := Prod.mk.inj hcut
    rw [hfront] at hall hboth
    rw [hrest] at hhead hboth
    obtain rfl : d = c := by simpa using hhead
    refine ⟨String.toList_injective (by simp [← hboth]), fun hd => ?_⟩
    rw [String.toList_ofList] at hd
    simpa using List.all_eq_true.1 hall d hd

/-- The first `c` is where a text is cut. -/
theorem cutAt_append {c : Char} {before : String} (h : c ∉ before.toList) (after : String) :
    cutAt c (before ++ String.singleton c ++ after) = some (before, after) := by
  have hall : ∀ d ∈ before.toList, (d != c) = true := by
    intro d hd
    rw [bne_iff_ne]
    rintro rfl
    exact h hd
  have hlist : (before ++ String.singleton c ++ after).toList =
      before.toList ++ c :: after.toList := by simp
  have hspan : (before.toList ++ c :: after.toList).span (· != c) =
      (before.toList, c :: after.toList) := by
    rw [List.span_eq_takeWhile_dropWhile, List.takeWhile_append_of_pos hall,
      List.dropWhile_append_of_pos hall]
    simp
  rw [cutAt, hlist, hspan]
  simp

/-- What follows a `c`, up to which there is no other one, **follows the last one**. -/
theorem afterLast_append {c : Char} {after : String} (h : c ∉ after.toList) (before : String) :
    afterLast c (before ++ String.singleton c ++ after) = after := by
  have hall : ∀ d ∈ after.toList.reverse, (d != c) = true := by
    intro d hd
    rw [bne_iff_ne]
    rintro rfl
    exact h (List.mem_reverse.1 hd)
  have hlist : (before ++ String.singleton c ++ after).toList.reverse =
      after.toList.reverse ++ c :: before.toList.reverse := by simp
  rw [afterLast, hlist, List.takeWhile_append_of_pos hall]
  simp

/-! ## Blanks -/

theorem trim_eq_self {s : String} (h : ∀ c ∈ s.toList, isBlank c = false) : trim s = s := by
  have hdrop : ∀ cs : List Char, (∀ c ∈ cs, isBlank c = false) → cs.dropWhile isBlank = cs := by
    intro cs hcs
    cases cs with
    | nil => rfl
    | cons c cs => rw [List.dropWhile_cons, hcs c List.mem_cons_self, if_neg Bool.false_ne_true]
  rw [trim, hdrop _ h, dropEndWhile, hdrop _ fun c hc => h c (List.mem_reverse.1 hc),
    List.reverse_reverse, String.ofList_toList]

end NestedShell.Text
