/-
  The window of a fault.

  The window reaches a fixed number of bytes to either side of the place, and its bounds are rounded
  down to boundaries.  On the right that can only make it shorter, on the left it adds less than the
  longest character.

  * `Text.lt_floorBoundary_add`: what rounding down can lose;
  * `Excerpt.Frames`: an excerpt is what is shown for a place; `Framed`: there is one;
    `framed`: so it is for every place in the input.
-/
import NestedShell.Proofs.Fault.Caret

namespace NestedShell

namespace Text

theorem isBoundary_byteLength (us vs : List Char) :
    isBoundary (byteLength us) (us ++ vs) = true :=
  isBoundary_iff.2 ⟨us, vs, rfl, rfl⟩

/-- Rounding down to a boundary loses less than a character of four bytes. -/
theorem lt_floorBoundary_add {n : Nat} {cs : List Char} (h : n ≤ byteLength cs) :
    n < floorBoundary n cs + 4 := by
  induction cs generalizing n with
  | nil =>
    obtain rfl : n = 0 := Nat.le_zero.1 h
    decide
  | cons c cs ih =>
    rw [byteLength] at h
    rw [floorBoundary]
    split
    · have hrest : n - c.utf8Size < floorBoundary (n - c.utf8Size) cs + 4 := ih (by omega)
      omega
    · have hchar := c.utf8Size_le_four
      omega

end Text

namespace Fault

/-- An excerpt is what is shown of the input for a place in it. -/
structure Excerpt.Frames {input : String} (e : Excerpt input) (pos : Nat) : Prop where
  place : e.place = pos
  window : window pos input = (e.start, e.stop)
  start_boundary : Text.isBoundary e.start input.toList = true
  stop_boundary : Text.isBoundary e.stop input.toList = true
  start_le : e.start ≤ pos
  /-- at most fifteen bytes on the left, and what is lost by rounding -/
  left : pos < e.start + (15 + 4)
  /-- the whole character at the place -/
  char : pos + e.char.utf8Size ≤ e.stop
  right : e.stop ≤ pos + 15
  shown : ∀ fault : Fault, fault.position = some pos →
    ∃ caret, fault.shownIn input = fault.headline ++ "\n" ++ e.line ++ "\n" ++ caret

/-- The place is shown in the window that is cut out for it. -/
def Framed (input : String) (pos : Nat) : Prop := ∃ e : Excerpt input, e.Frames pos

theorem Excerpt.start_le_place {input : String} (e : Excerpt input) : e.start ≤ e.place := by
  rw [start, place, Text.byteLength_append]
  exact Nat.le_add_right ..

theorem Excerpt.place_add_le {input : String} (e : Excerpt input) :
    e.place + e.char.utf8Size ≤ e.stop := by
  rw [place, stop, piece, Text.byteLength_append, Text.byteLength_append, Text.byteLength_append,
    Text.byteLength]
  omega

/-- **The window of a place** starts and ends at boundaries, it has the whole character at the place,
    and it is no longer than it should be. -/
theorem framed {input : String} {pos : Nat} (hpos : pos < input.utf8ByteSize)
    (hboundary : Text.isBoundary pos input.toList = true) : Framed input pos := by
  obtain ⟨e, rfl, hwindow⟩ := exists_window hpos hboundary
  have hsize : e.place < Text.byteLength input.toList := by
    rw [Text.byteLength_toList]
    exact hpos
  obtain ⟨hstart, hstop⟩ := Prod.mk.inj hwindow
  have hreach : reach = 15 := rfl
  refine ⟨e, {
    place := rfl
    window := hwindow
    start_boundary := ?_
    stop_boundary := ?_
    start_le := e.start_le_place
    left := ?_
    char := e.place_add_le
    right := ?_
    shown := fun _ hplace => ⟨_, shownIn_eq hplace hwindow⟩ }⟩
  · rw [e.input_eq, List.append_assoc]
    exact Text.isBoundary_byteLength _ _
  · rw [e.input_eq]
    exact Text.isBoundary_byteLength _ _
  · have hlost : e.place - reach < Text.floorBoundary (e.place - reach) input.toList + 4 :=
      Text.lt_floorBoundary_add (by omega)
    omega
  · have hround := Text.floorBoundary_le (min (e.place + reach) input.utf8ByteSize) input.toList
    omega

end Fault

end NestedShell
