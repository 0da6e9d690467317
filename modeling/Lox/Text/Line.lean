/-
# Lines of a byte stream

Input comes as bytes and is taken line by line: a line ends with its newline, or with the stream.
Bytes that are not UTF-8 spoil the line they stand in and no other.

* `takeLine` splits the first line off.
* `decode?` and `encode` go between bytes and text; what was encoded can be read
  (`decode?_encode`).
* `dropEnding` removes the characters that end a line.
-/
import Lox.Text.Blank

namespace Lox.Text

/-- The bytes of an input. -/
abbrev Bytes := List UInt8

/-- The byte of a newline. -/
def newlineByte : UInt8 := 10

/-- Splits off the first line, with its newline if it has one. -/
def takeLine : Bytes → Bytes × Bytes
  | [] => ([], [])
  | b :: rest =>
    if b = newlineByte then ([b], rest)
    else
      let (line, rest) := takeLine rest
      (b :: line, rest)

/-- The text that bytes encode, if they are UTF-8. -/
def decode? (bytes : Bytes) : Option String := String.fromUTF8? (ByteArray.mk bytes.toArray)

/-- The bytes of a text. -/
def encode (text : String) : Bytes := text.toUTF8.data.toList

/-- A line without the newline and carriage return characters that end it. -/
def dropEnding (line : String) : String :=
  String.ofList (dropRight (fun c => c = '\n' || c = '\r') line.toList)

theorem decode?_encode (text : String) : decode? (encode text) = some text := by
  simp only [decode?, encode, Array.toArray_toList, String.fromUTF8?,
    String.toUTF8_eq_toByteArray, dif_pos text.isValidUTF8]
  rfl

end Lox.Text
