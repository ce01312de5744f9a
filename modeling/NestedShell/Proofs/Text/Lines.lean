/-
  Pieces between separators, and lines.

  * `pieces_append_sep`: the pieces of two texts with a separator in between are those of the one
    and of the other; `pieces_intercalate`: pieces that are joined are found again;
  * `trim_chopReturn`: the carriage return at the end of a line is blank;
  * `filterMap_lines`: a function that sees no blanks at the end of a line, and nothing in an empty
    one, is applied to the pieces between newlines.
-/
import NestedShell.Text.Cut

namespace NestedShell.Text

/-! ## Pieces -/

section
variable {sep : Char → Bool} {d : Char}

theorem pieces_of_forall {w : List Char} (hw : ∀ c ∈ w, sep c = false) : pieces sep w = [w] := by
  induction w with
  | nil => rfl
  | cons c w ih =>
    obtain ⟨hc, hw⟩ := List.forall_mem_cons.1 hw
    rw [pieces, if_neg (by simp [hc]), ih hw]
    rfl

theorem not_sep_of_mem_pieces {cs w : List Char} (h : w ∈ pieces sep cs) :
    ∀ c ∈ w, sep c = false := by
  induction cs generalizing w with
  | nil => simp_all [pieces]
  | cons c cs ih =>
    rw [pieces] at h
    split at h
    · rcases List.mem_cons.1 h with rfl | h
      · exact fun c hc => absurd hc List.not_mem_nil
      · exact ih h
    · rename_i hc
      cases hp : pieces sep cs with
      | nil => exact absurd hp (pieces_ne_nil sep cs)
      | cons v vs =>
        rw [hp] at h ih
        rcases List.mem_cons.1 h with rfl | h
        · exact List.forall_mem_cons.2 ⟨by simpa using hc, ih (List.mem_cons_self ..)⟩
        · exact ih (List.mem_cons_of_mem _ h)

variable (hd : sep d = true)
include hd

/-- **A separator** ends a piece, and the next one starts behind it. -/
theorem pieces_append_sep (cs ds : List Char) :
    pieces sep (cs ++ d :: ds) = pieces sep cs ++ pieces sep ds := by
  induction cs with
  | nil =>
    rw [List.nil_append, pieces, pieces, if_pos hd]
    rfl
  | cons c cs ih =>
    rw [List.cons_append, pieces, pieces, ih]
    split
    · rfl
    · cases hp : pieces sep cs with
      | nil => exact absurd hp (pieces_ne_nil sep cs)
      | cons p ps => rfl

theorem pieces_append_cons {w : List Char} (hw : ∀ c ∈ w, sep c = false) (cs : List Char) :
    pieces sep (w ++ d :: cs) = w :: pieces sep cs := by
  rw [pieces_append_sep hd, pieces_of_forall hw]
  rfl

/-- **Pieces that are joined** are found again. -/
theorem pieces_intercalate {ws : List (List Char)} (hne : ws ≠ [])
    (hws : ∀ w ∈ ws, ∀ c ∈ w, sep c = false) : pieces sep (List.intercalate [d] ws) = ws := by
  induction ws with
  | nil => exact absurd rfl hne
  | cons w ws ih =>
    obtain ⟨hw, hws⟩ := List.forall_mem_cons.1 hws
    cases ws with
    | nil => rw [List.intercalate_singleton, pieces_of_forall hw]
    | cons v vs =>
      rw [List.intercalate_cons_cons, List.append_assoc, List.singleton_append,
        pieces_append_cons hd hw, ih nofun hws]

end

/-! ## Lines -/

/-- The carriage return that a line loses would be trimmed anyway. -/
theorem trim_chopReturn (p : List Char) :
    trim (String.ofList (chopReturn p)) = trim (String.ofList p) := by
  rw [chopReturn]
  split
  · rename_i hlast
    obtain ⟨l, rfl⟩ := List.getLast?_eq_some_iff.1 hlast
    have hblank : isBlank '\r' = true := by decide
    rw [trim, trim, List.dropLast_concat, String.toList_ofList, String.toList_ofList,
      List.dropWhile_append]
    cases hdrop : l.dropWhile isBlank with
    | nil => simp [hblank]
    | cons c cs => simp [dropEndWhile, hblank]
  · rfl

variable {α : Type} {f : String → Option α}

/-- A function that gives nothing for an empty line, and does not see the carriage return at the end
    of a line, **sees the pieces between newlines** instead of lines. -/
theorem filterMap_lines (hempty : f "" = none)
    (hreturn : ∀ p, f (String.ofList (chopReturn p)) = f (String.ofList p)) (s : String) :
    (lines s).filterMap f =
      (pieces (· == '\n') s.toList).filterMap fun p => f (String.ofList p) := by
  rw [lines]
  generalize pieces (· == '\n') s.toList = ps
  induction ps with
  | nil => rfl
  | cons p ps ih =>
    cases ps with
    | nil =>
      rw [linesOfPieces]
      cases p with
      | nil => simp [hempty]
      | cons c cs => rfl
    | cons q qs =>
      rw [linesOfPieces, List.filterMap_cons, List.filterMap_cons, hreturn, ih]
      exact nofun

end NestedShell.Text
