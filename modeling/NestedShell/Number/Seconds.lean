/-
  Lengths of time as text: a decimal number of seconds, read as nanoseconds.

  The number is read with the precision of a binary64 float, which decides the two ends: a negative
  number is accepted only when it is too small to differ from zero, and a number that rounds to
  `2 ^ 64` or more is refused.

  * `scientific?` reads a sign, the digits, and the power of ten that belongs to the last digit;
  * `nanoseconds?` reads a length of time.
-/
import NestedShell.Number.Integer

namespace NestedShell.Number

/-- The decimal number `digits * 10 ^ power`, with its sign. -/
structure Scientific where
  negative : Bool
  digits : List Char
  power : Int

/-- The sign at the start of some characters, and the rest. -/
def signed : List Char → Bool × List Char
  | [] => (false, [])
  | c :: cs => if c = '-' then (true, cs) else if c = '+' then (false, cs) else (false, c :: cs)

/-- The exponent that ends a number: nothing, or `e` and an integer. -/
def exponent? : List Char → Option Int
  | [] => some 0
  | c :: cs => if c = 'e' ∨ c = 'E' then integerOfChars? cs else none

/-- Digits with at most one point among them, at least one digit, and an exponent. -/
def scientific? (cs : List Char) : Option Scientific :=
  let (negative, cs) := signed cs
  let whole := cs.takeWhile Char.isDigit
  let rest := cs.dropWhile Char.isDigit
  let (fraction, rest) := match rest with
    | '.' :: ds => (ds.takeWhile Char.isDigit, ds.dropWhile Char.isDigit)
    | _ => ([], rest)
  if whole ++ fraction = [] then none
  else (exponent? rest).map fun e => ⟨negative, whole ++ fraction, e - fraction.length⟩

/-- Numerator and denominator of the size of a number.  Exponents that put it far outside the range
    of the floats are cut off, which keeps it outside. -/
def Scientific.ratio (x : Scientific) : Nat × Nat :=
  let n := Nat.ofDigitChars 10 x.digits 0
  let p := max (-(x.digits.length + 400 : Int)) (min 400 x.power)
  let scale := Nat.pow 10 p.natAbs
  if p < 0 then (n, scale) else (n * scale, 1)

/-- Nanoseconds in a number of seconds, to the nearest; `none` when the text is not a number or the
    number is no length of time. -/
def nanoseconds? (s : String) : Option Nat :=
  match scientific? s.toList with
  | none => none
  | some x =>
    let (n, d) := x.ratio
    if x.negative = true ∧ n <<< 1075 > d then none
    else if n ≥ (1 <<< 64 - 1024) * d then none
    else if x.negative then some 0
    else some ((2 * n * 1000000000 + d) / (2 * d))

end NestedShell.Number
