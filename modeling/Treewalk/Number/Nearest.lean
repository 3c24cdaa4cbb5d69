import Treewalk.Number.Double

/-!
# Reading decimals

`Decimal.nearest` is the rung nearest to a decimal, a tie going to the even rung. A decimal
beyond the last halfway point reads as infinity, one below the first as zero.
-/

namespace Treewalk.Number

/-- The decimal `digits / 10 ^ places`. -/
structure Decimal where
  digits : Nat
  places : Nat
deriving DecidableEq

namespace Decimal

/-- The decimal written as a whole part and the digits after the point. -/
def ofDigits (whole fraction : List Char) : Decimal :=
  ⟨Nat.ofDigitChars 10 (whole ++ fraction) 0, fraction.length⟩

/-- Whether the decimal belongs to rung `b` or to a higher one: it lies above the point
halfway to the rung below, or on that point if `b` is even. -/
def reaches (d : Decimal) (b : Nat) : Bool :=
  let value := d.digits * one
  let boundary := midpoint (b - 1) * Nat.pow 10 d.places
  b ≤ infinity && (boundary < value || (boundary == value && b % 2 == 0))

end Decimal

/-- The largest number with `bits` binary digits above `low` that satisfies `p`, for a `p`
that holds up to some number and not beyond. It is found digit by digit. -/
def climb (p : Nat → Bool) : (bits low : Nat) → Nat
  | 0, low => low
  | bits + 1, low => climb p bits (if p (low + Nat.pow 2 bits) then low + Nat.pow 2 bits else low)

/-- The rung nearest to the decimal. -/
def Decimal.nearest (d : Decimal) : Nat :=
  climb d.reaches 63 0

/-- The double nearest to the decimal. -/
def Decimal.toFloat (d : Decimal) : Float :=
  Float.ofBits (UInt64.ofNat d.nearest)

/-- Reads `digits` or `digits.digits`. -/
def Decimal.ofText? (text : List Char) : Option Decimal :=
  let whole := text.takeWhile Char.isDigit
  match whole, text.dropWhile Char.isDigit with
  | [], _ => none
  | _, [] => some (ofDigits whole [])
  | _, '.' :: fraction =>
    if !fraction.isEmpty && fraction.all Char.isDigit then some (ofDigits whole fraction) else none
  | _, _ => none

/-- Reads a number text: a decimal with or without a minus sign, or the name of a value that
is not finite. -/
def ofText? (text : String) : Option Float :=
  match text.toList with
  | ['i', 'n', 'f'] => some (Float.ofBits 0x7FF0000000000000)
  | ['-', 'i', 'n', 'f'] => some (Float.ofBits 0xFFF0000000000000)
  | ['N', 'a', 'N'] => some (Float.ofBits 0x7FF8000000000000)
  | '-' :: rest => (Decimal.ofText? rest).map fun d => -d.toFloat
  | rest => (Decimal.ofText? rest).map Decimal.toFloat

end Treewalk.Number
