/-
# Blank characters

The characters with the property `White_Space`, which are dropped from both ends of a text before
it is read as a numeral.
-/
namespace Lox.Text

/-- The code points of the `White_Space` characters, as ranges with both ends included. -/
def blankRanges : List (Nat × Nat) :=
  [(0x09, 0x0D), (0x20, 0x20), (0x85, 0x85), (0xA0, 0xA0), (0x1680, 0x1680), (0x2000, 0x200A),
    (0x2028, 0x2029), (0x202F, 0x202F), (0x205F, 0x205F), (0x3000, 0x3000)]

/-- Whether a character is blank. -/
def isBlank (c : Char) : Bool := blankRanges.any fun (low, high) => low ≤ c.toNat && c.toNat ≤ high

/-- Drops the characters of a class from the end of a text. -/
def dropRight (p : Char → Bool) (text : List Char) : List Char :=
  (text.reverse.dropWhile p).reverse

/-- Drops the blank characters from both ends of a text. -/
def trim (text : String) : String :=
  String.ofList (dropRight isBlank (text.toList.dropWhile isBlank))

end Lox.Text
