/-
  Runs of characters: the last run of a text, and the words between its blanks.

  * `FinalRun`: a text is cut in front of its longest final run of characters of a class;
    `exists_finalRun`: every text is, and `FinalRun.unique`: in one way;
  * `FinalRun.dropEndWhile_eq`: what is left without such a run; `FinalRun.afterLast_eq`: what
    follows the last occurrence of a character is one;
  * `runs` are the words of a text, as lists; a `Gap` stands between them;
  * `IsFirstWord`: a word of a text with only blanks in front; `IsFirstWord.head?_words`: it is the
    first of the words, `exists_isFirstWord`: there is one, unless the text is blank.
-/
import Mathlib.Data.List.DropRight
import Mathlib.Data.List.Infix
import NestedShell.Proofs.Text.Lines

namespace NestedShell.Text

/-! ## The last run -/

/-- A text, cut in front of its longest final run of characters that satisfy `p`. -/
structure FinalRun (p : Char → Bool) (s front run : String) : Prop where
  eq_append : s = front ++ run
  all : ∀ c ∈ run.toList, p c = true
  longest : ∀ c, front.toList.getLast? = some c → p c = false

section
variable {p : Char → Bool} {s front run : String}

theorem exists_finalRun (p : Char → Bool) (s : String) :
    FinalRun p s (String.ofList (s.toList.rdropWhile p))
      (String.ofList (s.toList.rtakeWhile p)) where
  eq_append := by
    rw [← String.ofList_append, List.rdropWhile_append_rtakeWhile, String.ofList_toList]
  all c hc := List.mem_rtakeWhile_imp (by simpa using hc)
  longest c hc := by
    rw [String.toList_ofList] at hc
    have hne : s.toList.rdropWhile p ≠ [] := by
      intro hnil
      rw [hnil] at hc
      cases hc
    rw [List.getLast?_eq_some_getLast hne, Option.some.injEq] at hc
    have hlast := List.rdropWhile_last_not p s.toList hne
    rwa [hc, Bool.not_eq_true] at hlast

namespace FinalRun

/-- It is **the longest one**: every run of such characters at the end of the text is the end of
    it. -/
theorem suffix (h : FinalRun p s front run) {before other : String} (heq : s = before ++ other)
    (hall : ∀ c ∈ other.toList, p c = true) : other.toList <:+ run.toList := by
  have hboth : before.toList ++ other.toList = front.toList ++ run.toList := by
    rw [← String.toList_append, ← String.toList_append, ← heq, h.eq_append]
  obtain ⟨more, hfront, hother⟩ | ⟨more, -, hrun⟩ := List.append_eq_append_iff.1 hboth
  · -- a run that starts further in front would hold the character that the final run stops at
    obtain rfl : more = [] := by
      refine List.eq_nil_iff_forall_not_mem.2 fun d hd => ?_
      obtain ⟨cs, c, rfl⟩ := List.eq_nil_or_concat more |>.resolve_left (List.ne_nil_of_mem hd)
      have hc : p c = false := h.longest c (by simp [hfront])
      rw [hall c (by simp [hother])] at hc
      cases hc
    exact ⟨[], hother⟩
  · exact ⟨more, hrun.symm⟩

/-- A text is cut in **one way**. -/
theorem unique {front' run' : String} (h : FinalRun p s front run)
    (h' : FinalRun p s front' run') : front = front' ∧ run = run' := by
  have hrun : run = run' := String.toList_injective <|
    (h'.suffix h.eq_append h.all).eq_of_length_le (h.suffix h'.eq_append h'.all).length_le
  subst hrun
  exact ⟨(String.append_left_inj run).1 (h.eq_append.symm.trans h'.eq_append), rfl⟩

/-- What is left without the final run. -/
theorem dropEndWhile_eq (h : FinalRun p s front run) : dropEndWhile p s.toList = front.toList := by
  rw [← ((exists_finalRun p s).unique h).1, String.toList_ofList]
  rfl

theorem rtakeWhile_eq (h : FinalRun p s front run) : s.toList.rtakeWhile p = run.toList := by
  rw [← ((exists_finalRun p s).unique h).2, String.toList_ofList]

theorem afterLast_eq {c : Char} (h : FinalRun (· != c) s front run) : afterLast c s = run :=
  ((exists_finalRun (· != c) s).unique h).2

end FinalRun

end

/-! ## Words between blanks -/

/-- The maximal runs of characters that are not blank. -/
def runs (cs : List Char) : List (List Char) := (pieces isBlank cs).filter (!·.isEmpty)

theorem words_ofList (cs : List Char) : words (String.ofList cs) = (runs cs).map String.ofList := by
  rw [words, String.toList_ofList, runs]

/-- A nonempty run of blanks. -/
structure Gap where
  chars : List Char
  ne_nil : chars ≠ []
  blank : ∀ c ∈ chars, isBlank c = true

/-- The gap that is one space. -/
def Gap.space : Gap := ⟨[' '], by simp, List.forall_mem_singleton.2 (by decide)⟩

theorem notBlank_of_all {cs : List Char} (h : cs.all (!isBlank ·) = true) :
    ∀ c ∈ cs, isBlank c = false := by
  simpa using h

theorem runs_blanks {g : List Char} (hg : ∀ c ∈ g, isBlank c = true) (cs : List Char) :
    runs (g ++ cs) = runs cs := by
  induction g with
  | nil => rfl
  | cons c g ih =>
    obtain ⟨hc, hg⟩ := List.forall_mem_cons.1 hg
    rw [List.cons_append, runs, pieces, if_pos hc]
    exact ih hg

theorem runs_word {w : List Char} (hne : w ≠ []) (hw : ∀ c ∈ w, isBlank c = false) :
    runs w = [w] := by
  simp [runs, pieces_of_forall hw, hne]

theorem runs_word_gap {w : List Char} (hne : w ≠ []) (hw : ∀ c ∈ w, isBlank c = false) (g : Gap)
    (cs : List Char) : runs (w ++ (g.chars ++ cs)) = w :: runs cs := by
  rcases g with ⟨_ | ⟨d, ds⟩, hg, hblank⟩
  · exact absurd rfl hg
  · obtain ⟨hd, hds⟩ := List.forall_mem_cons.1 hblank
    rw [List.cons_append, runs, pieces_append_cons hd hw, List.filter_cons_of_pos (by simp [hne])]
    exact congrArg (w :: ·) (runs_blanks hds cs)

/-- The first word of a text: a longest run without blanks, with only blanks in front. -/
def IsFirstWord (w s : String) : Prop :=
  ∃ gap more, s = gap ++ w ++ more ∧ (∀ c ∈ gap.toList, isBlank c = true) ∧ w ≠ "" ∧
    (∀ c ∈ w.toList, isBlank c = false) ∧ ∀ c, more.toList.head? = some c → isBlank c = true

theorem words_eq_nil {s : String} (h : ∀ c ∈ s.toList, isBlank c = true) : words s = [] := by
  have hruns : runs (s.toList ++ []) = [] := runs_blanks h []
  rw [← String.ofList_toList (s := s), words_ofList, ← List.append_nil s.toList, hruns]
  rfl

theorem IsFirstWord.head?_words {w s : String} (h : IsFirstWord w s) :
    (words s).head? = some w := by
  obtain ⟨gap, more, rfl, hgap, hne, hw, hmore⟩ := h
  have hne : w.toList ≠ [] := mt String.toList_eq_nil_iff.1 hne
  have hruns : (runs (w.toList ++ more.toList)).head? = some w.toList := by
    cases hchars : more.toList with
    | nil => rw [List.append_nil, runs_word hne hw, List.head?_cons]
    | cons c cs =>
      have hc : isBlank c = true := hmore c (by rw [hchars, List.head?_cons])
      have hgap := runs_word_gap hne hw ⟨[c], by simp, List.forall_mem_singleton.2 hc⟩ cs
      rw [List.singleton_append] at hgap
      rw [hgap, List.head?_cons]
  rw [← String.ofList_toList (s := gap ++ w ++ more), words_ofList, List.head?_map,
    String.toList_append, String.toList_append, List.append_assoc, runs_blanks hgap, hruns,
    Option.map_some, String.ofList_toList]

/-- A text has a first word, unless there are only blanks in it. -/
theorem exists_isFirstWord {s : String} (h : ¬ ∀ c ∈ s.toList, isBlank c = true) :
    ∃ w, IsFirstWord w s := by
  have hgap := List.takeWhile_append_dropWhile (p := isBlank) (l := s.toList)
  have hhead := List.head?_dropWhile_not isBlank s.toList
  cases hrest : s.toList.dropWhile isBlank with
  | nil => exact absurd (List.dropWhile_eq_nil_iff.1 hrest) h
  | cons d ds =>
    rw [hrest] at hgap hhead
    have hd : isBlank d = false := hhead
    have hword := List.takeWhile_append_dropWhile (p := (!isBlank ·)) (l := ds)
    have hmore := List.head?_dropWhile_not (!isBlank ·) ds
    refine ⟨String.ofList (d :: ds.takeWhile (!isBlank ·)),
      String.ofList (s.toList.takeWhile isBlank), String.ofList (ds.dropWhile (!isBlank ·)),
      ?_, ?_, ?_, ?_, ?_⟩
    · rw [← String.ofList_append, ← String.ofList_append, List.append_assoc, List.cons_append,
        hword, hgap, String.ofList_toList]
    · intro c hc
      rw [String.toList_ofList] at hc
      exact List.mem_takeWhile_imp hc
    · simp
    · intro c hc
      rw [String.toList_ofList] at hc
      rcases List.mem_cons.1 hc with rfl | hc
      · exact hd
      · simpa using List.mem_takeWhile_imp hc
    · intro c hc
      rw [String.toList_ofList] at hc
      rw [hc] at hmore
      simpa using hmore

end NestedShell.Text
