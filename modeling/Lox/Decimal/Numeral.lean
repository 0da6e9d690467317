/-
# Reading numerals

The grammar of numerals that `float` accepts: an optional sign, then one of the names `inf`,
`infinity` and `nan` in any case, or decimal digits with an optional point and an optional
exponent.  At least one digit must stand before or after the point, and at least one in an
exponent.  The value is the number nearest to the decimal.
-/
import Lox.Decimal.Binary

namespace Lox.Decimal

/-- The number that a run of decimal digits denotes. -/
def digitsValue (digits : List Char) : Nat :=
  digits.foldl (fun n c => 10 * n + (c.toNat - '0'.toNat)) 0

/-- The number nearest to `digits · 10 ^ exponent`.  Exponents far outside the range of numbers
are decided without computing the power: a decimal of `count` digits lies below
`10 ^ (exponent + count)`. -/
def nearest (digits : List Char) (exponent : Int) : Float :=
  let mantissa := digitsValue digits
  if mantissa = 0 then 0
  else
    let count := (Nat.toDigits 10 mantissa).length
    if exponent + count > 400 then Float.ofScientific 1 false 400
    else if exponent + count < -400 then 0
    else match exponent with
      | .ofNat e => Float.ofScientific mantissa false e
      | .negSucc e => Float.ofScientific mantissa true (e + 1)

/-- Splits a sign off a numeral; the flag says whether it was a minus. -/
def takeSign : List Char → Bool × List Char
  | '-' :: rest => (true, rest)
  | '+' :: rest => (false, rest)
  | rest => (false, rest)

/-- The exponent part of a numeral: nothing, or `e` with a signed run of digits up to the end. -/
def exponent? : List Char → Option Int
  | [] => some 0
  | c :: rest =>
    if c = 'e' ∨ c = 'E' then
      let (negative, digits) := takeSign rest
      if digits.isEmpty || !digits.all Char.isDigit then none
      else if negative then some (-(digitsValue digits)) else some (digitsValue digits)
    else none

/-- A decimal numeral without sign: digits, an optional point and fraction, an optional
exponent. -/
def unsigned? (text : List Char) : Option Float :=
  let whole := text.takeWhile Char.isDigit
  let rest := text.dropWhile Char.isDigit
  let (fraction, rest) := match rest with
    | '.' :: rest => (rest.takeWhile Char.isDigit, rest.dropWhile Char.isDigit)
    | rest => ([], rest)
  let digits := whole ++ fraction
  if digits.isEmpty then none
  else (exponent? rest).map fun e => nearest digits (e - fraction.length)

/-- The number named by a word, if it names one. -/
def named? (word : List Char) : Option Float :=
  match String.ofList (word.map Char.toLower) with
  | "inf" | "infinity" => some (Float.ofBits 0x7FF0000000000000)
  | "nan" => some (Float.ofBits 0x7FF8000000000000)
  | _ => none

/-- The number that a numeral denotes, if the whole text is one. -/
def readNumeral? (text : String) : Option Float :=
  let (negative, body) := takeSign text.toList
  let value := match named? body with
    | some x => some x
    | none => unsigned? body
  if negative then value.map (- ·) else value

end Lox.Decimal
