/-
  The place of a fault, as it is shown.

  A fault with a place in the input is told with a line that shows the input around the place, and a
  line below it with a caret.  The input is shown character by character, a newline as one arrow, so
  that columns count characters.  The caret does not stand under the character at the place, but two
  columns to the right of it: its indentation counts all that the line above begins with, and the
  two spaces of it are written once more.

  * `shownChar`: how a character of the input is shown;
  * an `Excerpt` is a piece of the input around a character; `Excerpt.line` shows it, and has the
    character in its column, `getElem?_line`;
  * `exists_window`: the window of a fault is an excerpt, `shownIn_eq`: which is shown with a caret;
  * `CaretBeside`: where the caret stands; `caretBeside_two`: two columns to the right.
-/
import NestedShell.Fault
import NestedShell.Proofs.Text.Cut
import NestedShell.Proofs.Text.Offset

namespace NestedShell.Fault

/-! ## Excerpts -/

/-- How a character of the input is shown: an excerpt has no line ends. -/
def shownChar (c : Char) : Char := if c = '\n' then '↵' else c

theorem shownChar_ne_newline (c : Char) : shownChar c ≠ '\n' := by
  rw [shownChar]
  split
  · decide
  · assumption

/-- A piece of a text around one of its characters, between what stands in front and behind. -/
structure Excerpt (input : String) where
  front : List Char
  left : List Char
  char : Char
  right : List Char
  back : List Char
  input_eq : input.toList = front ++ (left ++ char :: right) ++ back

namespace Excerpt

variable {input : String} (e : Excerpt input)

/-- The piece of the input that the excerpt shows. -/
def piece : List Char := e.left ++ e.char :: e.right

/-- The offset at which the piece starts. -/
def start : Nat := Text.byteLength e.front

/-- The offset of the character. -/
def place : Nat := Text.byteLength (e.front ++ e.left)

/-- The offset at which the piece ends. -/
def stop : Nat := Text.byteLength (e.front ++ e.piece)

/-- What stands in front of a piece, on its line. -/
def lead : String := "  near: '"

/-- The line that shows the piece. -/
def line : String := lead ++ String.ofList (e.piece.map shownChar) ++ "'"

/-- The column of the character, on this line. -/
def column : Nat := lead.length + e.left.length

/-- **The character** is shown in its column. -/
theorem getElem?_line : e.line.toList[e.column]? = some (shownChar e.char) := by
  have hline : e.line.toList = lead.toList ++
      (e.left.map shownChar ++ (shownChar e.char :: (e.right.map shownChar ++ ['\'']))) := by
    simp [line, piece]
  have hcolumn : e.column = lead.toList.length + ((e.left.map shownChar).length + 0) := by
    rw [column, List.length_map, String.length_toList, Nat.add_zero]
  rw [hline, hcolumn, List.getElem?_append_right (Nat.le_add_right ..), Nat.add_sub_cancel_left,
    List.getElem?_append_right (Nat.le_add_right ..), Nat.add_sub_cancel_left,
    List.getElem?_cons_zero]

/-- An excerpt is shown on one line. -/
theorem newline_not_mem_line : '\n' ∉ e.line.toList := by
  have hlead : '\n' ∉ lead.toList := by decide
  have hpiece : '\n' ∉ e.piece.map shownChar := by
    intro h
    obtain ⟨c, -, hc⟩ := List.mem_map.1 h
    exact shownChar_ne_newline c hc
  simp [line, hlead, hpiece]

/-- The character stands inside the text, -/
theorem place_lt : e.place < input.utf8ByteSize := by
  have hchar := e.char.utf8Size_pos
  rw [place, ← Text.byteLength_toList, e.input_eq]
  simp only [Text.byteLength_append, Text.byteLength]
  omega

/-- at a boundary. -/
theorem isBoundary_place : Text.isBoundary e.place input.toList = true := by
  refine Text.isBoundary_iff.2 ⟨e.front ++ e.left, e.char :: e.right ++ e.back, ?_, rfl⟩
  rw [e.input_eq, List.append_assoc, List.append_assoc, List.append_assoc, List.cons_append]

/-- What follows in the text where the piece starts. -/
theorem dropBytes_start : Text.dropBytes e.start input.toList = e.piece ++ e.back := by
  rw [start, e.input_eq, List.append_assoc, Text.dropBytes_append, piece]

/-- The piece is cut out between its bounds, -/
theorem takeBytes_piece : Text.takeBytes (e.stop - e.start) (e.piece ++ e.back) = e.piece := by
  rw [stop, start, Text.byteLength_append, Nat.add_sub_cancel_left, Text.takeBytes_append]

/-- and what is on the left of the character, between its start and the character. -/
theorem takeBytes_left : Text.takeBytes (e.place - e.start) (e.piece ++ e.back) = e.left := by
  rw [place, start, piece, Text.byteLength_append, Nat.add_sub_cancel_left, List.append_assoc,
    Text.takeBytes_append]

end Excerpt

/-! ## The window of a fault -/

/-- The bounds of the window are boundaries, and the character at the place lies between them as a
    whole: **the window is an excerpt**. -/
theorem exists_window {input : String} {pos : Nat} (hpos : pos < input.utf8ByteSize)
    (hboundary : Text.isBoundary pos input.toList = true) :
    ∃ e : Excerpt input, e.place = pos ∧ window pos input = (e.start, e.stop) := by
  obtain ⟨us, vs, hinput, rfl⟩ := Text.isBoundary_iff.1 hboundary
  have hsize : input.utf8ByteSize = Text.byteLength us + Text.byteLength vs := by
    rw [← Text.byteLength_toList, hinput, Text.byteLength_append]
  cases vs with
  | nil => exact absurd hpos (by rw [hsize]; exact Nat.lt_irrefl _)
  | cons c vs =>
    -- in front of the place, the window starts within what is there
    have hfront : Text.takeBytes (Text.byteLength us - reach) input.toList =
        Text.takeBytes (Text.byteLength us - reach) us := by
      rw [hinput, Text.takeBytes_of_le (Nat.sub_le ..)]
    have hus := Text.takeBytes_append_dropBytes (Text.byteLength us - reach) us
    -- from the place on, it has room for the character that stands there
    obtain ⟨room, hroom⟩ : ∃ room, min (Text.byteLength us + reach) input.utf8ByteSize =
        Text.byteLength us + (c.utf8Size + room) := by
      have hchar : c.utf8Size ≤ reach := Nat.le_trans c.utf8Size_le_four (by decide)
      have hrest : Text.byteLength (c :: vs) = c.utf8Size + Text.byteLength vs := rfl
      refine ⟨min reach (Text.byteLength (c :: vs)) - c.utf8Size, ?_⟩
      omega
    have hstop : Text.takeBytes (Text.byteLength us + (c.utf8Size + room)) input.toList =
        us ++ c :: Text.takeBytes room vs := by
      rw [hinput, Text.takeBytes_append_add, Text.takeBytes, if_pos (Nat.le_add_right ..),
        Nat.add_sub_cancel_left]
    have hvs := Text.takeBytes_append_dropBytes room vs
    let e : Excerpt input :=
      { front := Text.takeBytes (Text.byteLength us - reach) us
        left := Text.dropBytes (Text.byteLength us - reach) us
        char := c
        right := Text.takeBytes room vs
        back := Text.dropBytes room vs
        input_eq := by rw [← List.append_assoc, hus, List.append_assoc, List.cons_append, hvs,
          hinput] }
    refine ⟨e, by rw [Excerpt.place, hus], ?_⟩
    rw [window, ← Text.byteLength_takeBytes, ← Text.byteLength_takeBytes, hfront, hroom, hstop,
      Excerpt.start, Excerpt.stop, Excerpt.piece, ← List.append_assoc, hus]

/-! ## What is shown -/

/-- The piece of the input that is shown, each newline as the arrow. -/
theorem replaceChar_newline (cs : List Char) :
    Text.replaceChar '\n' "↵" (String.ofList cs) = String.ofList (cs.map shownChar) := by
  have hchar : (fun c => if c = '\n' then "↵".toList else [c]) = fun c => [shownChar c] := by
    funext c
    rw [shownChar]
    split <;> rfl
  have hchars : (String.ofList cs).toList = cs := String.toList_ofList
  rw [Text.replaceChar, hchar, hchars, List.map_eq_flatMap]

/-- A line with a caret in a column. -/
def caretLine (column : Nat) : String := String.ofList (List.replicate column ' ') ++ "^"

theorem idxOf?_caretLine (column : Nat) : (caretLine column).toList.idxOf? '^' = some column := by
  have hchars : (List.replicate column ' ' ++ ['^']).idxOf? '^' = some column := by
    induction column with
    | zero => rfl
    | succ column ih =>
      have hspace : (' ' == '^') = false := by decide
      rw [List.replicate_succ, List.cons_append, List.idxOf?_cons, hspace, ih]
      rfl
  rwa [caretLine, String.toList_append, String.toList_ofList]

theorem newline_not_mem_caretLine (column : Nat) : '\n' ∉ (caretLine column).toList := by
  simp [caretLine]

/-- **What is shown** of a fault with a place in the input. -/
theorem shownIn_eq {fault : Fault} {input : String} {e : Excerpt input}
    (hplace : fault.position = some e.place)
    (hwindow : window e.place input = (e.start, e.stop)) :
    fault.shownIn input =
      fault.headline ++ "\n" ++ e.line ++ "\n" ++ caretLine (e.column + 2) := by
  have hshown : fault.shownIn input = fault.headline ++ ("\n  near: '" ++
      Text.replaceChar '\n' "↵" (String.ofList e.piece) ++ "'\n  " ++
        String.ofList (List.replicate (e.left.length + 9) ' ') ++ "^") := by
    simp only [shownIn, hplace, e.place_lt, e.isBoundary_place, and_self, if_true, hwindow,
      e.dropBytes_start, e.takeBytes_piece, e.takeBytes_left]
    rfl
  have hspaces : caretLine (e.column + 2) =
      "  " ++ String.ofList (List.replicate (e.left.length + 9) ' ') ++ "^" := by
    have hcolumn : e.column = e.left.length + 9 := Nat.add_comm 9 e.left.length
    rw [caretLine, hcolumn, ← String.toList_inj]
    simp [List.replicate_succ]
  rw [hshown, replaceChar_newline, hspaces, ← String.toList_inj]
  simp [Excerpt.line, Excerpt.lead]

/-! ## Where the caret stands -/

/-- A fault is shown with a line of the input around a place, and below it with a caret, so many
    columns to the right of the character at the place. -/
def CaretBeside (fault : Fault) (input : String) (pos shift : Nat) : Prop :=
  ∃ (e : Excerpt input) (caret : String), e.place = pos ∧ window pos input = (e.start, e.stop) ∧
    fault.shownIn input = fault.headline ++ "\n" ++ e.line ++ "\n" ++ caret ∧
    '\n' ∉ e.line.toList ∧ '\n' ∉ caret.toList ∧
    e.line.toList[e.column]? = some (shownChar e.char) ∧
    caret.toList.idxOf? '^' = some (e.column + shift)

/-- **The caret stands two columns to the right** of the character at the place of a fault, for
    every input and every place in it. -/
theorem caretBeside_two {fault : Fault} {input : String} {pos : Nat}
    (hplace : fault.position = some pos) (hpos : pos < input.utf8ByteSize)
    (hboundary : Text.isBoundary pos input.toList = true) : fault.CaretBeside input pos 2 := by
  obtain ⟨e, rfl, hwindow⟩ := exists_window hpos hboundary
  exact ⟨e, caretLine (e.column + 2), rfl, hwindow, shownIn_eq hplace hwindow,
    e.newline_not_mem_line, newline_not_mem_caretLine _, e.getElem?_line, idxOf?_caretLine _⟩

/-- A place behind characters of up to four bytes, at a newline that is not allowed there: the window
    starts inside of a character, and so it is shown from its first byte on. -/
theorem caretBeside_newline :
    let fault : Fault := ⟨.unterminatedName "é", some 19⟩
    let input := "été 😀😀 $\x7bé\nfin"
    fault.position = some 19 ∧ 19 < input.utf8ByteSize ∧
      Text.isBoundary 19 input.toList = true ∧ window 19 input = (3, 23) ∧
      fault.CaretBeside input 19 2 := by
  intro fault input
  have hpos : 19 < input.utf8ByteSize := by decide +kernel
  have hboundary : Text.isBoundary 19 input.toList = true := by decide +kernel
  exact ⟨rfl, hpos, hboundary, by decide +kernel, caretBeside_two rfl hpos hboundary⟩

/-- It **does not stand under the character**, not even for a short input. -/
theorem not_caretBeside_zero :
    ¬ (⟨.emptySubstitution, some 7⟩ : Fault).CaretBeside "echo $\x7b\x7d" 7 0 := by
  rintro ⟨e, caret, hplace, -, hshown, -, hcaret, -, hcolumn⟩
  -- the last line is what it is, and its caret is too far to the right
  have hlast : Text.afterLast '\n'
      ((⟨.emptySubstitution, some 7⟩ : Fault).shownIn "echo $\x7b\x7d") = caretLine 18 := by
    decide +kernel
  rw [hshown, show "\n" = String.singleton '\n' from rfl, Text.afterLast_append hcaret] at hlast
  rw [hlast, idxOf?_caretLine, Option.some.injEq] at hcolumn
  have hleft : e.left.length ≤ 7 := by
    rw [← hplace, Excerpt.place, Text.byteLength_append]
    exact Nat.le_add_left_of_le (Text.length_le_byteLength e.left)
  have hlead : Excerpt.lead.length = 9 := by decide
  rw [Excerpt.column, hlead] at hcolumn
  omega

end NestedShell.Fault
