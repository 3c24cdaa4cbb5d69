import Treewalk.Number.Nearest

/-!
# The text of a number

A double is written with the fewest digits that read back as the same double. The digits are
found by looking at ever finer decimal grids: on the first grid on which one of the two
neighbours of the value reads back, that neighbour is taken; of two, the nearer one, and the
upper one if both are equally near. The text never has an exponent.
-/

namespace Treewalk.Number

/-- Grid `j` is made of the multiples of `10 ^ j / 10 ^ finest`. The finest grid is finer than
the smallest distance between two doubles. -/
def finest : Nat := 345

/-- The distance between two points of grid `j`. Like all lengths in this file it is counted in
units of 2⁻¹⁰⁷⁵ / 10 ^ finest. -/
def spacing (j : Nat) : Nat := one * Nat.pow 10 j

/-- Whether point `n` of grid `j` reads back as rung `b`, for a `b` other than zero. The points
halfway to the rungs beside it belong to the even rung. -/
def readsBack (b j n : Nat) : Bool :=
  let point := n * spacing j
  let lower := midpoint (b - 1) * Nat.pow 10 finest
  let upper := midpoint b * Nat.pow 10 finest
  if b % 2 = 0 then lower ≤ point && point ≤ upper else lower < point && point < upper

/-- The point of grid `j` at or below rung `b`. -/
def below (b j : Nat) : Nat :=
  units b * Nat.pow 10 finest / spacing j

/-- The neighbour of rung `b` on grid `j` that reads back and is nearest to it. -/
def neighbour? (b j : Nat) : Option Nat :=
  let n := below b j
  match readsBack b j n, readsBack b j (n + 1) with
  | true, true =>
    some (if 2 * (units b * Nat.pow 10 finest) < (2 * n + 1) * spacing j then n else n + 1)
  | true, false => some n
  | false, true => some (n + 1)
  | false, false => none

/-- A point on the coarsest grid, from grid `j` down, that has one for rung `b`, together with the
grid. -/
def coarsest (b : Nat) : (j : Nat) → Nat × Nat
  | 0 => (below b 0, 0)
  | j + 1 =>
    match neighbour? b (j + 1) with
    | some n => (n, j + 1)
    | none => coarsest b j

/-- A grid on which every point but zero lies above rung `b`. -/
def topGrid (b : Nat) : Nat :=
  (Nat.log2 (below b 0) + 1) * 30103 / 100000 + 1

/-- The decimal digits of `n`, with zeros in front up to `width` digits. -/
def padded (width n : Nat) : List Char :=
  let digits := Nat.toDigits 10 n
  List.replicate (width - digits.length) '0' ++ digits

/-- The text of point `n` of grid `j`. -/
def pointText (n j : Nat) : List Char :=
  if finest ≤ j then
    Nat.toDigits 10 (n * Nat.pow 10 (j - finest))
  else
    let places := finest - j
    let whole := Nat.toDigits 10 (n / Nat.pow 10 places)
    if n % Nat.pow 10 places = 0 then whole
    else whole ++ '.' :: padded places (n % Nat.pow 10 places)

/-- The text of the finite double on rung `b`. -/
def magnitudeText (b : Nat) : List Char :=
  if b = 0 then ['0'] else
    let (n, j) := coarsest b (topGrid b)
    pointText n j

/-- The text of a number. -/
def text (x : Float) : String :=
  let bits := x.toBits.toNat
  let magnitude := bits % Nat.pow 2 63
  let sign := if bits / Nat.pow 2 63 = 0 then [] else ['-']
  if infinity < magnitude then "NaN"
  else if magnitude = infinity then String.ofList (sign ++ ['i', 'n', 'f'])
  else String.ofList (sign ++ magnitudeText magnitude)

/-- The text of a number that is the value of an expression. A fraction that is only a zero is left
out. -/
def valueText (x : Float) : String :=
  let digits := (text x).toList
  if ['.', '0'].isSuffixOf digits then String.ofList (digits.take (digits.length - 2)) else text x

end Treewalk.Number
