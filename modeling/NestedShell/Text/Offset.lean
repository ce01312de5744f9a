/-
  Byte offsets.  Positions in a text count the bytes of its UTF-8 form, so only some of them stand
  between two characters: those are the boundaries.

  * `offsets n cs` pairs every character with the offset of its first byte, from `n` on;
  * `dropBytes? n cs` is the text from the boundary `n` on;
  * `floorBoundary cs n` is the last boundary that is not after `n`;
  * `takeBytes n cs` are the characters that fit into the first `n` bytes.
-/

namespace NestedShell.Text

/-- How many bytes characters take. -/
def byteLength : List Char → Nat
  | [] => 0
  | c :: cs => c.utf8Size + byteLength cs

/-- Every character with the offset of its first byte, when the first one stands at `start`. -/
def offsets (start : Nat) : List Char → List (Nat × Char)
  | [] => []
  | c :: cs => (start, c) :: offsets (start + c.utf8Size) cs

/-- What follows the first `n` bytes, if they end at a boundary of the text. -/
def dropBytes? : Nat → List Char → Option (List Char)
  | 0, cs => some cs
  | _ + 1, [] => none
  | n + 1, c :: cs => if c.utf8Size ≤ n + 1 then dropBytes? (n + 1 - c.utf8Size) cs else none
termination_by structural _ cs => cs

/-- Whether the offset `n` is a boundary of the text. -/
def isBoundary (n : Nat) (cs : List Char) : Bool :=
  (dropBytes? n cs).isSome

/-- The last boundary that is not after `n`. -/
def floorBoundary : Nat → List Char → Nat
  | _, [] => 0
  | n, c :: cs => if c.utf8Size ≤ n then c.utf8Size + floorBoundary (n - c.utf8Size) cs else 0

/-- The characters that lie within the first `n` bytes. -/
def takeBytes : Nat → List Char → List Char
  | _, [] => []
  | n, c :: cs => if c.utf8Size ≤ n then c :: takeBytes (n - c.utf8Size) cs else []

/-- The characters that do not lie within the first `n` bytes. -/
def dropBytes : Nat → List Char → List Char
  | _, [] => []
  | n, c :: cs => if c.utf8Size ≤ n then dropBytes (n - c.utf8Size) cs else c :: cs

/-! ## Small facts -/

theorem offsets_append (start : Nat) (cs ds : List Char) :
    offsets start (cs ++ ds) = offsets start cs ++ offsets (start + byteLength cs) ds := by
  induction cs generalizing start with
  | nil => rfl
  | cons c cs ih => simp only [List.cons_append, offsets, ih, byteLength, Nat.add_assoc]

/-- Offsets that start further behind. -/
theorem offsets_add (start more : Nat) (cs : List Char) :
    offsets (start + more) cs = (offsets more cs).map fun p => (start + p.1, p.2) := by
  induction cs generalizing more with
  | nil => rfl
  | cons c cs ih => simp only [offsets, Nat.add_assoc, ih, List.map_cons]

theorem length_offsets (start : Nat) (cs : List Char) :
    (offsets start cs).length = cs.length := by
  induction cs generalizing start with
  | nil => rfl
  | cons c cs ih => rw [offsets, List.length_cons, ih, List.length_cons]

/-- The offset of a character behind a text. -/
theorem offset_behind (us vs : List Char) (n : Nat) :
    (offsets 0 (us ++ vs))[us.length + n]?.map (·.1) =
      ((offsets 0 vs)[n]?.map (·.1)).map (byteLength us + ·) := by
  rw [offsets_append, ← length_offsets 0 us, List.getElem?_append_right (Nat.le_add_right ..),
    Nat.add_sub_cancel_left, Nat.add_comm 0, offsets_add, List.getElem?_map, Option.map_map,
    Option.map_map]
  rfl

/-- Every character stands before the end of the text. -/
theorem offset_lt {start n pos : Nat} {cs : List Char} {c : Char}
    (h : (offsets start cs)[n]? = some (pos, c)) : pos < start + byteLength cs := by
  induction cs generalizing start n with
  | nil => cases h
  | cons d cs ih =>
    rw [byteLength]
    cases n with
    | zero =>
      obtain ⟨rfl, -⟩ : start = pos ∧ d = c := by simpa [offsets] using h
      have := d.utf8Size_pos
      omega
    | succ n =>
      have : pos < start + d.utf8Size + byteLength cs := ih h
      omega

/-- The length of a text is that of its characters. -/
theorem byteLength_toList (s : String) : byteLength s.toList = s.utf8ByteSize := by
  have hlist (cs : List Char) : byteLength cs = (String.ofList cs).utf8ByteSize := by
    induction cs with
    | nil => rfl
    | cons c cs ih =>
      rw [byteLength, ih, String.ofList_cons, String.utf8ByteSize_append,
        String.utf8ByteSize_singleton]
  rw [hlist, String.ofList_toList]

theorem takeBytes_append_dropBytes (n : Nat) (cs : List Char) :
    takeBytes n cs ++ dropBytes n cs = cs := by
  induction cs generalizing n with
  | nil => rfl
  | cons c cs ih => simp only [takeBytes, dropBytes]; split <;> simp [ih]

theorem byteLength_takeBytes (n : Nat) (cs : List Char) :
    byteLength (takeBytes n cs) = floorBoundary n cs := by
  induction cs generalizing n with
  | nil => rfl
  | cons c cs ih =>
    simp only [takeBytes, floorBoundary]
    split <;> simp [byteLength, ih]

theorem floorBoundary_le (n : Nat) (cs : List Char) : floorBoundary n cs ≤ n := by
  induction cs generalizing n with
  | nil => simp [floorBoundary]
  | cons c cs ih =>
    simp only [floorBoundary]
    split
    · have := ih (n - c.utf8Size); omega
    · omega

end NestedShell.Text
