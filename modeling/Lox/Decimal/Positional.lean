/-
# The text of a number

Numbers are written with the fewest digits that read back, in positional notation whatever their
size: no exponent, and no fraction part for integers.  Zero keeps its sign, and what is not finite
has a name.
-/
import Lox.Decimal.Shortest

namespace Lox.Decimal

/-- The digits of a decimal with the point at its place: zeros fill the places up to the point on
either side. -/
def positional (d : Decimal) : String :=
  let digits := Nat.toDigits 10 d.digits
  match d.exponent with
  | .ofNat zeros => String.ofList (digits ++ List.replicate zeros '0')
  | .negSucc e =>
    let places := e + 1
    let padded := List.replicate (places + 1 - digits.length) '0' ++ digits
    let whole := padded.length - places
    String.ofList (padded.take whole ++ '.' :: padded.drop whole)

/-- The text of a binary form. -/
def Binary.text : Binary → String
  | .nan => "NaN"
  | .infinite negative => if negative then "-inf" else "inf"
  | .finite negative mantissa exponent =>
    let unsigned := if mantissa = 0 then "0" else (shortest mantissa exponent).positional
    if negative then "-" ++ unsigned else unsigned

/-- The text of a number, as `print` writes it. -/
def numberText (x : Float) : String := (Binary.ofFloat x).text

end Lox.Decimal
