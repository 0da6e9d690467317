/-
# The shortest decimal that reads back

Every real number near a finite binary number rounds to it; those that do form an interval, whose
ends belong to it exactly when the mantissa is even.  The *shortest decimal* of a number is the
point of that interval with the fewest significant digits and, of several such points, the one
nearest to the number; of two equally near ones it is the larger.

The search goes over decimal grids.  The grid of step `10 ^ s` has two points next to the number;
if the interval holds any point of the grid it holds one of these two.  So it is enough to test
two points on the grid for one digit, then on that for two digits, and so on: at 17 digits one is
always found.  All tests are comparisons of natural numbers.
-/
import Lox.Decimal.Binary

namespace Lox

/-- The decimal number `digits · 10 ^ exponent`. -/
structure Decimal where
  digits : Nat
  exponent : Int
  deriving DecidableEq, Repr

namespace Decimal

/-- Quarters of the last place of `mantissa` to the lower end of the interval that rounds to
`mantissa · 2 ^ exponent`: half of the gap to the number below, which is only half as wide under
a power of two. -/
def gapBelow (mantissa : Nat) : Nat := if mantissa = Binary.leadingOne then 1 else 2

/-- Quarters of the last place to the upper end of the interval. -/
def gapAbove : Nat := 2

/-- The ratio `2 ^ p / 10 ^ s` as a pair of natural numbers. -/
def gridRatio (p s : Int) : Nat × Nat :=
  (Nat.pow 2 p.toNat * Nat.pow 10 (-s).toNat, Nat.pow 2 (-p).toNat * Nat.pow 10 s.toNat)

/-- The point of the grid of step `10 ^ s` that stands for `mantissa · 2 ^ exponent`, counted in
steps: of its two neighbours on the grid that round to it, the nearer, and the upper one of two
equally near.  There is none if the grid is too coarse. -/
def gridPoint? (mantissa : Nat) (exponent s : Int) : Option Nat :=
  let (scale, step) := gridRatio (exponent - 2) s
  let value := 4 * mantissa * scale
  let low := (4 * mantissa - gapBelow mantissa) * scale
  let high := (4 * mantissa + gapAbove) * scale
  let inside (c : Nat) : Bool :=
    if mantissa % 2 = 0 then low ≤ c * step && c * step ≤ high
    else low < c * step && c * step < high
  let below := value / step
  let above := below + 1
  match inside below, inside above with
  | true, true => if value - below * step < above * step - value then some below else some above
  | true, false => some below
  | false, true => some above
  | false, false => none

/-- The power of ten next above `mantissa · 2 ^ exponent`: the `k` for which the number is at
least `10 ^ (k - 1)` and less than `10 ^ k`.  Numbers below one are first multiplied by a power
of ten that makes every positive number at least one. -/
def magnitude (mantissa : Nat) (exponent : Int) : Int :=
  let digitCount (n : Nat) : Int := (Nat.toDigits 10 n).length
  match exponent with
  | .ofNat e => digitCount (mantissa * Nat.pow 2 e)
  | .negSucc e =>
    let divisor := Nat.pow 2 (e + 1)
    if divisor ≤ mantissa then digitCount (mantissa / divisor)
    else digitCount (mantissa * Nat.pow 10 325 / divisor) - 325

/-- A decimal whose last digit is zero has one digit fewer at the next grid. -/
def dropZero (d : Decimal) : Decimal :=
  if d.digits % 10 = 0 then ⟨d.digits / 10, d.exponent + 1⟩ else d

/-- Searches the grids for `count`, `count + 1`, … digits, `grids` of them. -/
def searchGrids (mantissa : Nat) (exponent top : Int) : (grids count : Nat) → Decimal
  | 0, count => ⟨0, top - count⟩
  | grids + 1, count =>
    match gridPoint? mantissa exponent (top - count) with
    | some point => dropZero ⟨point, top - count⟩
    | none => searchGrids mantissa exponent top grids (count + 1)

/-- The shortest decimal of the positive number `mantissa · 2 ^ exponent`. -/
def shortest (mantissa : Nat) (exponent : Int) : Decimal :=
  searchGrids mantissa exponent (magnitude mantissa exponent) 17 1

end Decimal

end Lox
