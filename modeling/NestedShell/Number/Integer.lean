/-
  Integers as text: decimal digits after an optional sign, and the 64-bit integers among them.

  * `integer?` reads an integer, `showInteger` writes one;
  * `int64?` reads an integer of 64 bits and refuses the others, `showInt64` writes one;
  * `integer?_showInteger` and `int64?_showInt64`: what is written reads back.
-/

namespace NestedShell.Number

/-- The number written by some decimal digits; at least one is needed. -/
def digits? (cs : List Char) : Option Nat :=
  if cs ≠ [] ∧ cs.all Char.isDigit = true then some (Nat.ofDigitChars 10 cs 0) else none

/-- The integer written by decimal digits after an optional sign. -/
def integerOfChars? : List Char → Option Int
  | [] => none
  | c :: cs =>
    if c = '-' then (digits? cs).map fun n : Nat => -(n : Int)
    else if c = '+' then (digits? cs).map fun n : Nat => (n : Int)
    else (digits? (c :: cs)).map fun n : Nat => (n : Int)

/-- The integer that a text writes out. -/
def integer? (s : String) : Option Int :=
  integerOfChars? s.toList

/-- The decimal digits of an integer, after a minus sign when it is negative. -/
def showInteger (i : Int) : String :=
  if i < 0 then "-" ++ Nat.repr i.natAbs else Nat.repr i.natAbs

/-- The integer of 64 bits of the same value, if there is one. -/
def ofInteger? (i : Int) : Option Int64 :=
  if Int64.minValue.toInt ≤ i ∧ i ≤ Int64.maxValue.toInt then some (Int64.ofInt i) else none

/-- The integer of 64 bits that a text writes out. -/
def int64? (s : String) : Option Int64 :=
  (integer? s).bind ofInteger?

/-- The decimal digits of an integer of 64 bits, after a minus sign when it is negative. -/
def showInt64 (n : Int64) : String :=
  showInteger n.toInt

/-! ## What is written reads back -/

theorem digits?_toDigits (n : Nat) : digits? (Nat.toDigits 10 n) = some n := by
  have h : (Nat.toDigits 10 n).all Char.isDigit = true :=
    List.all_eq_true.2 fun _ hc => Nat.isDigit_of_mem_toDigits (by omega) (by omega) hc
  simp [digits?, Nat.toDigits_ne_nil, h, Nat.ofDigitChars_toDigits]

theorem integerOfChars?_toDigits (n : Nat) :
    integerOfChars? (Nat.toDigits 10 n) = some (n : Int) := by
  have hd : ∀ c ∈ Nat.toDigits 10 n, c.isDigit = true := fun _ hc =>
    Nat.isDigit_of_mem_toDigits (by omega) (by omega) hc
  have h := digits?_toDigits n
  cases hn : Nat.toDigits 10 n with
  | nil => exact absurd hn Nat.toDigits_ne_nil
  | cons c cs =>
    rw [hn] at h hd
    have hc := hd c (by simp)
    have h1 : c ≠ '-' := by rintro rfl; exact absurd hc (by decide)
    have h2 : c ≠ '+' := by rintro rfl; exact absurd hc (by decide)
    simp [integerOfChars?, h1, h2, h]

theorem integer?_showInteger (i : Int) : integer? (showInteger i) = some i := by
  unfold showInteger
  split
  · rw [integer?, String.toList_append, show "-".toList = ['-'] from by decide,
      List.singleton_append, Nat.repr_eq_ofList_toDigits, String.toList_ofList]
    rw [integerOfChars?, if_pos rfl, digits?_toDigits, Option.map_some, Option.some.injEq]
    omega
  · rw [integer?, Nat.repr_eq_ofList_toDigits, String.toList_ofList, integerOfChars?_toDigits]
    simp only [Option.some.injEq]
    omega

theorem ofInteger?_toInt (n : Int64) : ofInteger? n.toInt = some n := by
  have h1 : Int64.minValue.toInt ≤ n.toInt := Int64.le_toInt n
  have h2 : n.toInt ≤ Int64.maxValue.toInt := Int64.toInt_le n
  rw [ofInteger?, if_pos ⟨h1, h2⟩, Int64.ofInt_toInt]

theorem int64?_showInt64 (n : Int64) : int64? (showInt64 n) = some n := by
  rw [int64?, showInt64, integer?_showInteger, Option.bind_some, ofInteger?_toInt]

end NestedShell.Number
