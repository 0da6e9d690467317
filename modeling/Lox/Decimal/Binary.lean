/-
# Numbers as sign, mantissa and power of two

A finite number of the language is `± mantissa · 2 ^ exponent` with a natural mantissa and an
integer exponent.  This module reads that form off the 64 bits of a number, so that everything
exact about numbers (their shortest decimal text, whether one is a list index) is arithmetic on
`Nat` and `Int`.

* `Binary.ofBits` splits the bits; `Binary.ofFloat` is the same of a number.
* `Binary.toNat?` is the natural number that a binary form equals, if there is one.
-/
namespace Lox.Decimal

/-- The value of a 64-bit number. -/
inductive Binary where
  | nan
  | infinite (negative : Bool)
  /-- The number `± mantissa · 2 ^ exponent`; zero has a sign too. -/
  | finite (negative : Bool) (mantissa : Nat) (exponent : Int)
  deriving DecidableEq, Repr

namespace Binary

/-- The place of the one in front of the 52 bits of a fraction. -/
def leadingOne : Nat := Nat.pow 2 52

/-- Splits the bits into sign (1), biased exponent (11) and fraction (52).  A biased exponent of
zero marks the numbers without a leading one, all ones mark what is not finite. -/
def ofBits (bits : Nat) : Binary :=
  let negative := bits / Nat.pow 2 63 % 2 == 1
  let biased : Nat := bits / leadingOne % Nat.pow 2 11
  let fraction : Nat := bits % leadingOne
  if biased = 2047 then
    if fraction = 0 then .infinite negative else .nan
  else if biased = 0 then .finite negative fraction (-1074)
  else .finite negative (leadingOne + fraction) (biased - 1075)

/-- The binary form of a number. -/
def ofFloat (x : Float) : Binary := ofBits x.toBits.toNat

/-- The natural number `mantissa · 2 ^ exponent`, if that is one. -/
def natural? (mantissa : Nat) : Int → Option Nat
  | .ofNat e => some (mantissa * Nat.pow 2 e)
  | .negSucc e =>
    let divisor := Nat.pow 2 (e + 1)
    if mantissa % divisor = 0 then some (mantissa / divisor) else none

/-- The natural number that a binary form equals, if there is one; both zeros equal `0`. -/
def toNat? : Binary → Option Nat
  | .finite negative mantissa exponent =>
    if negative && mantissa != 0 then none else natural? mantissa exponent
  | _ => none

end Binary

end Lox.Decimal
