/-!
# Doubles as a ladder of magnitudes

Without its sign, a finite double is a rung on a ladder: the rungs are numbered by
their bit patterns, and the value grows with the number. Every value is a whole number
of units of 2⁻¹⁰⁷⁵, and so is the point halfway between two rungs. Reading a decimal
and choosing the digits of a double both come down to comparing with these halfway
points, in exact arithmetic on natural numbers.
-/

namespace Treewalk.Number

/-- The number of units of `units` in one. -/
def one : Nat := Nat.pow 2 1075

/-- The rung above the last finite double. It stands for infinity. -/
def infinity : Nat := 0x7FF0000000000000

/-- The value of rung `b`, in units of 2⁻¹⁰⁷⁵. The upper bits of `b` are the exponent; an
exponent of zero means that no leading bit is implied. -/
def units (b : Nat) : Nat :=
  let exponent := b / Nat.pow 2 52
  let fraction := b % Nat.pow 2 52
  if exponent = 0 then 2 * fraction else (Nat.pow 2 52 + fraction) * Nat.pow 2 exponent

/-- The point halfway between rung `b` and the next one, in the same units. -/
def midpoint (b : Nat) : Nat :=
  (units b + units (b + 1)) / 2

end Treewalk.Number
