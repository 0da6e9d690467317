/-
# From program text to tokens

A program text is cut into *pieces*, each of at least one character: tokens, gaps between them
(blanks and comments), stray characters that begin no token, and a string that is never closed,
which takes all that is left.  The pieces put together are the text again (`flatMap_pieces`), and
each is the longest of its kind at its place.

`scan` numbers the lines along the pieces and keeps the tokens.  If any piece is a fault, all
faults are reported instead, in the order of the text.
-/
import Lox.Token.Basic
import Lox.Decimal.Numeral

namespace Lox

/-! ## 1. Pieces -/

/-- What a piece of program text is. -/
inductive PieceKind where
  | token (kind : Kind)
  /-- A blank character or a comment. -/
  | gap
  /-- A character that begins no token. -/
  | stray
  /-- A string without a closing quote. -/
  | unclosed

/-- A piece of program text. -/
structure Piece where
  kind : PieceKind
  text : List Char

/-- Whether a character begins a name. -/
def isNameStart (c : Char) : Bool := c.isAlpha || c = '_'

/-- Whether a character continues a name. -/
def isNameRest (c : Char) : Bool := c.isAlphanum || c = '_'

/-- The number literal made of the digits before and after its point. -/
def numberKind (whole fraction : List Char) : Kind :=
  .number (Decimal.nearest (whole ++ fraction) (-fraction.length))

/-- The kind of a word: reserved, or a name. -/
def wordKind (word : List Char) : Kind :=
  match Keyword.ofText? (String.ofList word) with
  | some keyword => .keyword keyword
  | none => .identifier

/-- The piece that begins with `c`, which stands before `rest`, and the text after the piece.  A
point belongs to a number only if a digit follows it. -/
def firstPiece (c : Char) (rest : List Char) : Piece × List Char :=
  if c = ' ' ∨ c = '\r' ∨ c = '\t' ∨ c = '\n' then (⟨.gap, [c]⟩, rest)
  else if c = '"' then
    let contents := rest.takeWhile (· ≠ '"')
    match rest.dropWhile (· ≠ '"') with
    | [] => (⟨.unclosed, c :: contents⟩, [])
    | quote :: after =>
      (⟨.token (.string (String.ofList contents)), c :: contents ++ [quote]⟩, after)
  else if c.isDigit then
    let whole := c :: rest.takeWhile Char.isDigit
    match rest.dropWhile Char.isDigit with
    | '.' :: d :: more =>
      if d.isDigit then
        let fraction := (d :: more).takeWhile Char.isDigit
        (⟨.token (numberKind whole fraction), whole ++ '.' :: fraction⟩,
          (d :: more).dropWhile Char.isDigit)
      else (⟨.token (numberKind whole []), whole⟩, '.' :: d :: more)
    | after => (⟨.token (numberKind whole []), whole⟩, after)
  else if isNameStart c then
    let word := c :: rest.takeWhile isNameRest
    (⟨.token (wordKind word), word⟩, rest.dropWhile isNameRest)
  else if c = '/' ∧ rest.head? = some '/' then
    (⟨.gap, c :: rest.takeWhile (· ≠ '\n')⟩, rest.dropWhile (· ≠ '\n'))
  else
    match Symbol.single? c with
    | none => (⟨.stray, [c]⟩, rest)
    | some symbol =>
      match symbol.withEqual?, rest with
      | some double, '=' :: after => (⟨.token (.symbol double), [c, '=']⟩, after)
      | _, _ => (⟨.token (.symbol symbol), [c]⟩, rest)

/-- A piece and the text after it make up the text. -/
theorem firstPiece_append (c : Char) (rest : List Char) :
    (firstPiece c rest).1.text ++ (firstPiece c rest).2 = c :: rest := by
  unfold firstPiece
  split
  · simp
  split
  · have h := List.takeWhile_append_dropWhile (p := (· ≠ '"')) (l := rest)
    split <;> rename_i heq <;> rw [heq] at h <;> simpa using h
  split
  · have h := List.takeWhile_append_dropWhile (p := Char.isDigit) (l := rest)
    dsimp only
    split
    · rename_i d more heq
      rw [heq] at h
      split
      · have h' := List.takeWhile_append_dropWhile (p := Char.isDigit) (l := d :: more)
        simp only [List.cons_append, List.append_assoc, h', h]
      · simpa using h
    · simp
  split
  · simp [List.takeWhile_append_dropWhile]
  split
  · simp [List.takeWhile_append_dropWhile]
  split
  · simp
  · split <;> simp

/-- Every piece takes the character it begins with. -/
theorem firstPiece_text_ne_nil (c : Char) (rest : List Char) :
    (firstPiece c rest).1.text ≠ [] := by
  unfold firstPiece
  repeat' first | split | simp

theorem firstPiece_length_lt (c : Char) (rest : List Char) :
    (firstPiece c rest).2.length < (c :: rest).length := by
  have h := congrArg List.length (firstPiece_append c rest)
  have h' := List.length_pos_iff.2 (firstPiece_text_ne_nil c rest)
  rw [List.length_append] at h
  omega

/-- The pieces of a text, in order. -/
def pieces : List Char → List Piece
  | [] => []
  | c :: rest => (firstPiece c rest).1 :: pieces (firstPiece c rest).2
termination_by text => text.length
decreasing_by exact firstPiece_length_lt c rest

/-- The pieces of a text put together are the text. -/
theorem flatMap_pieces (text : List Char) : (pieces text).flatMap Piece.text = text := by
  fun_induction pieces text with
  | case1 => rfl
  | case2 c rest ih => rw [List.flatMap_cons, ih, firstPiece_append]

/-! ## 2. Lines, tokens and faults -/

/-- What can be wrong with a program text before it has any structure. -/
inductive ScanCause where
  | unexpectedCharacter
  | unterminatedString
  deriving DecidableEq, Repr

/-- A fault of a program text and its line. -/
structure ScanError where
  line : Nat
  cause : ScanCause
  deriving DecidableEq, Repr

/-- The message for a cause. -/
def ScanCause.message : ScanCause → String
  | .unexpectedCharacter => "Unexpected character."
  | .unterminatedString => "Unterminated string."

/-- The report of a fault. -/
def ScanError.text (error : ScanError) : String :=
  "[line " ++ toString error.line ++ "] Error: " ++ error.cause.message

/-- What a list of pieces holds. -/
structure Scanned where
  tokens : List Token
  errors : List ScanError
  lastLine : Nat

/-- The tokens and faults of the pieces that begin on a given line.  A token has the line on which
it ends, an unclosed string the line of its opening quote. -/
def Scanned.ofPieces : (line : Nat) → List Piece → Scanned
  | line, [] => ⟨[], [], line⟩
  | line, piece :: rest =>
    let next := line + piece.text.count '\n'
    let found := ofPieces next rest
    match piece.kind with
    | .token kind =>
      { found with tokens := ⟨kind, String.ofList piece.text, next⟩ :: found.tokens }
    | .gap => found
    | .stray => { found with errors := ⟨line, .unexpectedCharacter⟩ :: found.errors }
    | .unclosed => { found with errors := ⟨line, .unterminatedString⟩ :: found.errors }

/-- The tokens of a program text, or all its faults. -/
def scan (source : String) : Except (List ScanError) TokenStream :=
  let found := Scanned.ofPieces 1 (pieces source.toList)
  if found.errors.isEmpty then .ok ⟨found.tokens, found.lastLine⟩ else .error found.errors

end Lox
