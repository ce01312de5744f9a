/-
  Boundaries of texts.

  An offset is a boundary of a text iff the text is cut there into what stands before it and what
  stands behind it.

  * `isBoundary_iff`: the boundaries of a text are the lengths of its beginnings;
  * `takeBytes_append`, `dropBytes_append`: what is taken and dropped at a boundary;
  * `takeBytes_append_add`: taking goes on behind a beginning of the text; `takeBytes_of_le`: within
    it, it does not depend on what is behind.
-/
import NestedShell.Text.Offset

namespace NestedShell.Text

theorem byteLength_append (us vs : List Char) :
    byteLength (us ++ vs) = byteLength us + byteLength vs := by
  induction us with
  | nil => exact (Nat.zero_add _).symm
  | cons c us ih => rw [List.cons_append, byteLength, byteLength, ih, Nat.add_assoc]

theorem length_le_byteLength (cs : List Char) : cs.length ≤ byteLength cs := by
  induction cs with
  | nil => exact Nat.le_refl 0
  | cons c cs ih =>
    have hchar := c.utf8Size_pos
    rw [List.length_cons, byteLength]
    omega

/-! ## Boundaries -/

theorem dropBytes?_append (us vs : List Char) :
    dropBytes? (byteLength us) (us ++ vs) = some vs := by
  induction us with
  | nil =>
    rw [byteLength, List.nil_append]
    cases vs <;> rfl
  | cons c us ih =>
    -- the first character has a length, so the offset is not zero
    obtain ⟨n, hn⟩ : ∃ n, c.utf8Size + byteLength us = n + 1 :=
      Nat.exists_eq_add_one.2 (Nat.add_pos_left c.utf8Size_pos _)
    have hrest : n + 1 - c.utf8Size = byteLength us := by omega
    rw [List.cons_append, byteLength, hn, dropBytes?, if_pos (by omega), hrest, ih]

/-- **The boundaries of a text** are the lengths of its beginnings. -/
theorem isBoundary_iff {n : Nat} {cs : List Char} :
    isBoundary n cs = true ↔ ∃ us vs, cs = us ++ vs ∧ n = byteLength us := by
  constructor
  · intro h
    induction cs generalizing n with
    | nil =>
      cases n with
      | zero => exact ⟨[], [], rfl, rfl⟩
      | succ n => cases h
    | cons c cs ih =>
      cases n with
      | zero => exact ⟨[], c :: cs, rfl, rfl⟩
      | succ n =>
        rw [isBoundary, dropBytes?] at h
        split at h
        · rename_i hle
          obtain ⟨us, vs, rfl, hlength⟩ := ih h
          refine ⟨c :: us, vs, rfl, ?_⟩
          rw [byteLength]
          omega
        · cases h
  · rintro ⟨us, vs, rfl, rfl⟩
    rw [isBoundary, dropBytes?_append, Option.isSome_some]

/-! ## Taking and dropping -/

theorem takeBytes_zero (cs : List Char) : takeBytes 0 cs = [] := by
  cases cs with
  | nil => rfl
  | cons c cs => rw [takeBytes, if_neg (Nat.not_le.2 c.utf8Size_pos)]

/-- Taking goes on behind a beginning of the text. -/
theorem takeBytes_append_add (us vs : List Char) (n : Nat) :
    takeBytes (byteLength us + n) (us ++ vs) = us ++ takeBytes n vs := by
  induction us with
  | nil => rw [byteLength, Nat.zero_add, List.nil_append, List.nil_append]
  | cons c us ih =>
    have hrest : c.utf8Size + byteLength us + n - c.utf8Size = byteLength us + n := by omega
    rw [List.cons_append, takeBytes, byteLength, if_pos (by omega), hrest, ih, List.cons_append]

/-- **At a boundary**, what stands before it is taken. -/
theorem takeBytes_append (us vs : List Char) : takeBytes (byteLength us) (us ++ vs) = us := by
  have htake := takeBytes_append_add us vs 0
  rwa [Nat.add_zero, takeBytes_zero, List.append_nil] at htake

/-- **At a boundary**, what stands behind it is left. -/
theorem dropBytes_append (us vs : List Char) : dropBytes (byteLength us) (us ++ vs) = vs := by
  have hboth := takeBytes_append_dropBytes (byteLength us) (us ++ vs)
  rw [takeBytes_append] at hboth
  exact List.append_cancel_left hboth

/-- What is taken of a beginning does not depend on what is behind. -/
theorem takeBytes_of_le {n : Nat} {us : List Char} (h : n ≤ byteLength us) (vs : List Char) :
    takeBytes n (us ++ vs) = takeBytes n us := by
  induction us generalizing n with
  | nil =>
    obtain rfl : n = 0 := Nat.le_zero.1 h
    rw [takeBytes_zero, takeBytes_zero]
  | cons c us ih =>
    rw [byteLength] at h
    rw [List.cons_append, takeBytes, takeBytes, ih (by omega)]

end NestedShell.Text
