/-
  Suggestions for a word that is not known: the shortest candidate that it is the start of, or else
  the closest one within two edits.

  * `editDistance` is the number of characters to insert, delete or replace, computed row by row
    and given up when a whole row is above a bound;
  * `suggestion?` is the best of some candidates.
-/
import NestedShell.Text.Cut

namespace NestedShell.Suggestion

/-! ## Edit distance -/

/-- The next row of the table of distances.  A row holds the distance of some characters to each
    start of a second text; `left` is the entry before the current one, `row` are the entries above
    from the one above `left` on. -/
def nextRow (c : Char) : Nat → List Nat → List Char → List Nat
  | left, above :: row, d :: ds =>
    match row with
    | [] => [left]
    | above' :: _ =>
      let cost := if c = d then 0 else 1
      left :: nextRow c (min (min (left + 1) (above' + 1)) (above + cost)) row ds
  | left, _, _ => [left]

/-- Goes through the characters of the first text, `row` being the row of the ones before.  When all
    entries of a row are above the bound the least of them is the answer. -/
def distanceFrom (bound : Nat) (ds : List Char) : Nat → List Nat → List Char → Nat
  | _, row, [] => row.getLastD 0
  | i, row, c :: cs =>
    let row := nextRow c (i + 1) row ds
    let least := row.min?.getD 0
    if bound < least then least else distanceFrom bound ds (i + 1) row cs

/-- The number of edits between two texts, or a number above the bound when there are more edits
    than that. -/
def editDistance (s t : String) (bound : Nat) : Nat :=
  let cs := s.toList
  let ds := t.toList
  if cs = [] then ds.length
  else if ds = [] then cs.length
  else distanceFrom bound ds 0 (List.range (ds.length + 1)) cs

/-! ## The best candidate -/

/-- The first element among those with the least measure. -/
def firstLeast {α : Type} (measure : α → Nat) : List α → Option α
  | [] => none
  | x :: xs =>
    match firstLeast measure xs with
    | none => some x
    | some y => if measure y < measure x then some y else some x

/-- The most edits that a suggestion may be away. -/
def reach : Nat := 2

/-- The best candidate for a word: the first one of the shortest that start with it, or else the
    first one of the closest within reach. -/
def suggestion? (word : String) (candidates : List String) : Option String :=
  match firstLeast String.utf8ByteSize (candidates.filter (Text.startsWith word)) with
  | some candidate => some candidate
  | none =>
    firstLeast (editDistance word · reach)
      (candidates.filter fun c => c != "" && editDistance word c reach ≤ reach)

end NestedShell.Suggestion
