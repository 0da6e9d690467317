/-
# The lexical grammar

`Lexeme text kind` says which texts are tokens, and of which kind, without saying how a program text
is cut up.

Where a lexeme begins, and no comment, there the first piece of a program text is a token that is at
least as long, and of the same kind if it is not longer (`Lexeme.firstPiece`).  So a text is a
lexeme of one kind at most (`Lexeme.kind_eq`).  The other way round, the pieces that are tokens are
lexemes (`lexeme_firstPiece`): each is the longest one at its place.

There are seven ways in which a text can begin (`firstPiece_cases`).
-/
import Mathlib.Data.List.TakeWhile
import Lox.Token.Scan

namespace Lox

/-! ## 1. Lexemes

This is the grammar of tokens by itself: names, numbers, texts and symbols, without the scanner. -/

/-- A run of digits. -/
def IsDigits (text : List Char) : Prop := text ≠ [] ∧ ∀ c ∈ text, c.isDigit = true

/-- Digits, and possibly a point with more digits behind it. -/
inductive IsNumeral : List Char → Prop
  | whole {digits : List Char} (h : IsDigits digits) : IsNumeral digits
  | decimal {digits fraction : List Char} (h : IsDigits digits) (h' : IsDigits fraction) :
      IsNumeral (digits ++ '.' :: fraction)

/-- The texts that are shaped like names. -/
inductive IsWord : List Char → Prop
  | mk {c : Char} {rest : List Char} (first : isNameStart c = true)
      (others : ∀ d ∈ rest, isNameRest d = true) : IsWord (c :: rest)

/-- **The lexical grammar**: the texts that are tokens, each with its kind.  A number literal stands
for what it is read as. -/
inductive Lexeme : List Char → Kind → Prop
  | symbol (symbol : Symbol) : Lexeme symbol.text.toList (.symbol symbol)
  | keyword (word : Keyword) : Lexeme word.text.toList (.keyword word)
  | identifier {text : List Char} (word : IsWord text)
      (free : ∀ keyword : Keyword, keyword.text.toList ≠ text) : Lexeme text .identifier
  | string {contents : List Char} (closed : '"' ∉ contents) :
      Lexeme ('"' :: contents ++ ['"']) (.string (String.ofList contents))
  | number {text : List Char} {value : Float} (numeral : IsNumeral text)
      (read : Decimal.readNumeral? (String.ofList text) = some value) : Lexeme text (.number value)

/-- A symbol of one character is spelt with it. -/
theorem Symbol.text_of_single? {c : Char} {symbol : Symbol} (h : Symbol.single? c = some symbol) :
    symbol.text = String.ofList [c] := by
  unfold Symbol.single? at h
  split at h <;> cases h <;> rfl

/-- A symbol of two characters is spelt with the first one and an equals sign. -/
theorem Symbol.text_of_withEqual? {symbol double : Symbol} {c : Char}
    (h : symbol.withEqual? = some double) (single : Symbol.single? c = some symbol) :
    double.text = String.ofList [c, '='] := by
  unfold Symbol.single? at single
  split at single <;> cases single <;> cases h <;> rfl

theorem Keyword.text_of_ofText? {text : String} {word : Keyword}
    (h : Keyword.ofText? text = some word) : word.text = text := by
  unfold Keyword.ofText? at h
  split at h <;> cases h <;> rfl

/-! ## 2. Words

Reserved words are shaped like names, so the kind of a word is settled by comparing it with them. -/

/-- Reserved words are shaped like names. -/
theorem Keyword.isWord (word : Keyword) : IsWord word.text.toList := by
  cases word <;> exact ⟨rfl, List.all_eq_true.1 rfl⟩

theorem wordKind_keyword (word : Keyword) : wordKind word.text.toList = .keyword word := by
  rw [wordKind, String.ofList_toList, Keyword.ofText?_text]

/-- A word is an identifier if it is none of the reserved words. -/
theorem wordKind_eq_identifier {text : List Char} :
    wordKind text = .identifier ↔ ∀ keyword : Keyword, keyword.text.toList ≠ text := by
  unfold wordKind
  cases found : Keyword.ofText? (String.ofList text) with
  | some keyword =>
    refine iff_of_false (fun same => by cases same) fun free => free keyword ?_
    rw [Keyword.text_of_ofText? found, String.toList_ofList]
  | none =>
    refine iff_of_true rfl fun keyword same => ?_
    rw [← same, String.ofList_toList, Keyword.ofText?_text] at found
    cases found

/-- A word is a lexeme of the kind that is found for it. -/
theorem lexeme_wordKind {text : List Char} (word : IsWord text) : Lexeme text (wordKind text) := by
  cases found : Keyword.ofText? (String.ofList text) with
  | some keyword =>
    have same : keyword.text.toList = text := by
      rw [Keyword.text_of_ofText? found, String.toList_ofList]
    rw [← same, wordKind_keyword]
    exact .keyword keyword
  | none =>
    have other : wordKind text = .identifier := by rw [wordKind, found]
    rw [other]
    exact .identifier word (wordKind_eq_identifier.1 other)

/-! ## 3. Numbers

A literal is read as the number that is nearest to it. -/

/-- Digits have no other case, so an exponent cannot begin with one. -/
theorem toLower_of_isDigit {c : Char} (digit : c.isDigit = true) : c.toLower = c := by
  simp only [Char.isDigit, Bool.and_eq_true, decide_eq_true_eq] at digit
  unfold Char.toLower
  rw [dif_neg]
  rintro ⟨upper, -⟩
  exact absurd (UInt32.le_trans upper digit.2) (by decide)

/-- What begins with a digit has no sign and is not the name of a number. -/
theorem readNumeral?_of_digit {c : Char} (digit : c.isDigit = true) (rest : List Char) :
    Decimal.readNumeral? (String.ofList (c :: rest)) = Decimal.unsigned? (c :: rest) := by
  have sign : Decimal.takeSign (c :: rest) = (false, c :: rest) := by
    unfold Decimal.takeSign
    split
    · rename_i heq
      cases heq
      cases digit
    · rename_i heq
      cases heq
      cases digit
    · rfl
  have first : ∀ {name : String} {d : Char} {more : List Char},
      String.ofList ((c :: rest).map Char.toLower) = name → name.toList = d :: more →
        d.isDigit = true := by
    rintro name d more rfl spelt
    rw [String.toList_ofList, List.map_cons, toLower_of_isDigit digit] at spelt
    cases spelt
    exact digit
  have unnamed : Decimal.named? (c :: rest) = none := by
    unfold Decimal.named?
    split
    · rename_i same
      cases first same rfl
    · rename_i same
      cases first same rfl
    · rename_i same
      cases first same rfl
    · rfl
  unfold Decimal.readNumeral?
  rw [String.toList_ofList, sign]
  simp only [unnamed]
  rfl

/-- A run of digits goes on with the digits behind it. -/
theorem IsDigits.takeWhile {digits : List Char} (h : IsDigits digits) (rest : List Char) :
    (digits ++ rest).takeWhile Char.isDigit = digits ++ rest.takeWhile Char.isDigit :=
  List.takeWhile_append_of_pos h.2

theorem IsDigits.dropWhile {digits : List Char} (h : IsDigits digits) (rest : List Char) :
    (digits ++ rest).dropWhile Char.isDigit = rest.dropWhile Char.isDigit :=
  List.dropWhile_append_of_pos h.2

theorem IsDigits.exists_cons {digits : List Char} (h : IsDigits digits) :
    ∃ c rest, digits = c :: rest ∧ c.isDigit = true ∧ ∀ d ∈ rest, d.isDigit = true := by
  obtain ⟨nonempty, all⟩ := h
  cases digits with
  | nil => exact absurd rfl nonempty
  | cons c rest =>
    exact ⟨c, rest, rfl, all c List.mem_cons_self, fun d mem => all d (List.mem_cons_of_mem c mem)⟩

/-- Digits alone are a number. -/
theorem readNumeral?_whole {digits : List Char} (h : IsDigits digits) :
    Decimal.readNumeral? (String.ofList digits) = some (Decimal.nearest digits 0) := by
  obtain ⟨c, rest, rfl, digit, -⟩ := h.exists_cons
  have taken := h.takeWhile []
  have left := h.dropWhile []
  rw [List.append_nil] at taken left
  rw [readNumeral?_of_digit digit, Decimal.unsigned?, taken, left]
  simp [Decimal.exponent?]

/-- Digits with a point and more digits are a number with as many places. -/
theorem readNumeral?_decimal {digits fraction : List Char} (h : IsDigits digits)
    (h' : IsDigits fraction) :
    Decimal.readNumeral? (String.ofList (digits ++ '.' :: fraction)) =
      some (Decimal.nearest (digits ++ fraction) (-fraction.length)) := by
  have taken := h.takeWhile ('.' :: fraction)
  have left := h.dropWhile ('.' :: fraction)
  have taken' := h'.takeWhile []
  have left' := h'.dropWhile []
  rw [List.append_nil] at taken' left'
  obtain ⟨c, rest, rfl, digit, -⟩ := h.exists_cons
  rw [List.cons_append, readNumeral?_of_digit digit, ← List.cons_append, Decimal.unsigned?, taken,
    left]
  simp [Decimal.exponent?, taken', left']

/-! ## 4. The first piece of a text that begins with a lexeme

The scanner looks at the first character and takes as much as fits.  So what it takes is never
shorter than a lexeme that is there. -/

/-- A point that belongs to a number: a digit follows it. -/
def IsPoint (after : List Char) : Prop := ∃ d more, after = '.' :: d :: more ∧ d.isDigit = true

section Number

variable {c : Char} (digit : c.isDigit = true) (rest : List Char)

include digit

/-- A number ends with its digits if no point that belongs to it follows. -/
theorem firstPiece_whole (h : ¬ IsPoint (rest.dropWhile Char.isDigit)) :
    (firstPiece c rest).1 =
      ⟨.token (numberKind (c :: rest.takeWhile Char.isDigit) []),
        c :: rest.takeWhile Char.isDigit⟩ := by
  unfold firstPiece
  rw [if_neg (by rintro (rfl | rfl | rfl | rfl) <;> cases digit),
    if_neg (by rintro rfl; cases digit), if_pos digit]
  dsimp only
  split
  · rename_i d more found
    rw [if_neg fun digit' => h ⟨d, more, found, digit'⟩]
  · rfl

/-- A point that a digit follows belongs to the number, with all digits behind it. -/
theorem firstPiece_decimal {d : Char} {more : List Char}
    (found : rest.dropWhile Char.isDigit = '.' :: d :: more) (digit' : d.isDigit = true) :
    (firstPiece c rest).1 =
      ⟨.token (numberKind (c :: rest.takeWhile Char.isDigit) ((d :: more).takeWhile Char.isDigit)),
        c :: rest.takeWhile Char.isDigit ++ '.' :: (d :: more).takeWhile Char.isDigit⟩ := by
  unfold firstPiece
  rw [if_neg (by rintro (rfl | rfl | rfl | rfl) <;> cases digit),
    if_neg (by rintro rfl; cases digit), if_pos digit]
  simp only [found, if_pos digit']

end Number

theorem not_isDigit_of_isNameStart {c : Char} (start : isNameStart c = true) :
    ¬ c.isDigit = true := by
  intro digit
  simp only [Char.isDigit, Bool.and_eq_true, decide_eq_true_eq] at digit
  rcases Bool.or_eq_true_iff.1 start with letter | underscore
  · rcases Bool.or_eq_true_iff.1 letter with upper | lower
    · have least := (of_decide_eq_true upper).1
      exact absurd (UInt32.le_trans least digit.2) (by decide)
    · have least := of_decide_eq_true (Bool.and_eq_true_iff.1 lower).1
      exact absurd (UInt32.le_trans least digit.2) (by decide)
  · cases of_decide_eq_true underscore
    exact absurd digit.2 (by decide)

/-- A word goes on as far as it can. -/
theorem firstPiece_word {c : Char} (start : isNameStart c = true) (rest : List Char) :
    (firstPiece c rest).1 =
      ⟨.token (wordKind (c :: rest.takeWhile isNameRest)), c :: rest.takeWhile isNameRest⟩ := by
  unfold firstPiece
  rw [if_neg (by rintro (rfl | rfl | rfl | rfl) <;> cases start),
    if_neg (by rintro rfl; cases start), if_neg (not_isDigit_of_isNameStart start), if_pos start]

/-- No number, name or string begins with a symbol. -/
theorem Symbol.not_isDigit_of_single? {c : Char} {symbol : Symbol}
    (h : Symbol.single? c = some symbol) : c.isDigit = false ∧ isNameStart c = false := by
  unfold Symbol.single? at h
  split at h
  case h_18 => cases h
  all_goals exact ⟨rfl, rfl⟩

section Symbol

variable {c : Char} {symbol : Symbol} (single : Symbol.single? c = some symbol)

include single

/-- A character that forms a symbol with an equals sign does so if there is one. -/
theorem firstPiece_double {double : Symbol} (h : symbol.withEqual? = some double)
    (after : List Char) :
    (firstPiece c ('=' :: after)).1 = ⟨.token (.symbol double), [c, '=']⟩ := by
  obtain ⟨digit, name⟩ := Symbol.not_isDigit_of_single? single
  unfold firstPiece
  rw [if_neg (by rintro (rfl | rfl | rfl | rfl) <;> cases single),
    if_neg (by rintro rfl; cases single), if_neg (Bool.not_eq_true _ ▸ digit),
    if_neg (Bool.not_eq_true _ ▸ name), if_neg (by rintro ⟨-, ⟨⟩⟩), single]
  simp only [h]

/-- Otherwise it is a symbol by itself. -/
theorem firstPiece_single {rest : List Char} (noComment : ¬ (c = '/' ∧ rest.head? = some '/'))
    (h : symbol.withEqual? = none ∨ rest.head? ≠ some '=') :
    (firstPiece c rest).1 = ⟨.token (.symbol symbol), [c]⟩ := by
  obtain ⟨digit, name⟩ := Symbol.not_isDigit_of_single? single
  unfold firstPiece
  rw [if_neg (by rintro (rfl | rfl | rfl | rfl) <;> cases single),
    if_neg (by rintro rfl; cases single), if_neg (Bool.not_eq_true _ ▸ digit),
    if_neg (Bool.not_eq_true _ ▸ name), if_neg noComment, single]
  dsimp only
  split
  · rename_i double after found
    rcases h with h | h
    · cases h.symm.trans found
    · exact absurd rfl h
  · rfl

end Symbol

/-- A symbol is one character, or one and `=`. -/
theorem Symbol.text_cases (symbol : Symbol) :
    (∃ c, Symbol.single? c = some symbol ∧ symbol.text.toList = [c]) ∨
      ∃ c one, Symbol.single? c = some one ∧ one.withEqual? = some symbol ∧
        symbol.text.toList = [c, '='] := by
  cases symbol
  case bangEqual => exact .inr ⟨'!', .bang, rfl, rfl, rfl⟩
  case equalEqual => exact .inr ⟨'=', .equal, rfl, rfl, rfl⟩
  case greaterEqual => exact .inr ⟨'>', .greater, rfl, rfl, rfl⟩
  case lessEqual => exact .inr ⟨'<', .less, rfl, rfl, rfl⟩
  all_goals exact .inl ⟨_, rfl, rfl⟩

/-- A piece is a token that begins with a lexeme, and it is of the same kind if there is no more to
it. -/
def Piece.Extends (piece : Piece) (lexeme : List Char) (kind : Kind) : Prop :=
  ∃ kind' more, piece = ⟨.token kind', lexeme ++ more⟩ ∧ (more = [] → kind' = kind)

theorem Piece.Extends.same (lexeme : List Char) (kind : Kind) :
    (Piece.mk (.token kind) lexeme).Extends lexeme kind :=
  ⟨kind, [], by rw [List.append_nil], fun _ => rfl⟩

/-- A longer piece may be of any kind. -/
theorem Piece.Extends.longer (lexeme : List Char) (kind : Kind) {kind' : Kind} {more : List Char}
    (h : more ≠ []) : (Piece.mk (.token kind') (lexeme ++ more)).Extends lexeme kind :=
  ⟨kind', more, rfl, fun nothing => absurd nothing h⟩

/-- A symbol at the front is found, or a longer one that begins with it. -/
theorem extends_symbol {c : Char} {p : List Char} {symbol : Symbol}
    (spelt : symbol.text.toList = c :: p) (rest : List Char)
    (noComment : ¬ (c = '/' ∧ (p ++ rest).head? = some '/')) :
    (firstPiece c (p ++ rest)).1.Extends (c :: p) (.symbol symbol) := by
  rcases symbol.text_cases with ⟨d, single, text⟩ | ⟨d, one, single, double, text⟩
  · cases text.symm.trans spelt
    by_cases alone : symbol.withEqual? = none ∨ rest.head? ≠ some '='
    · rw [firstPiece_single single noComment alone]
      exact .same _ _
    · rw [not_or, not_not] at alone
      obtain ⟨double, h⟩ := Option.ne_none_iff_exists'.1 alone.1
      obtain ⟨after, rfl⟩ := List.head?_eq_some_iff.1 alone.2
      rw [List.nil_append, firstPiece_double single h]
      exact .longer [c] _ (List.cons_ne_nil '=' [])
  · cases text.symm.trans spelt
    rw [List.singleton_append, firstPiece_double single double]
    exact .same _ _

/-- A word at the front is found, or a longer one. -/
theorem extends_word {c : Char} {p : List Char} {kind : Kind} (word : IsWord (c :: p))
    (same : wordKind (c :: p) = kind) (rest : List Char) :
    (firstPiece c (p ++ rest)).1.Extends (c :: p) kind := by
  obtain ⟨start, others⟩ := word
  rw [firstPiece_word start, List.takeWhile_append_of_pos others]
  refine ⟨_, rest.takeWhile isNameRest, rfl, fun nothing => ?_⟩
  rw [nothing, List.append_nil, same]

/-- A text ends at its closing quote, so what is found is the text itself. -/
theorem extends_string {contents : List Char} (closed : '"' ∉ contents) (rest : List Char) :
    (firstPiece '"' (contents ++ ['"'] ++ rest)).1.Extends ('"' :: contents ++ ['"'])
      (.string (String.ofList contents)) := by
  have open_ : ∀ c ∈ contents, decide (c ≠ '"') = true := fun c mem =>
    decide_eq_true fun same => closed (same ▸ mem)
  have taken : (contents ++ ['"'] ++ rest).takeWhile (· ≠ '"') = contents := by
    rw [List.append_assoc, List.takeWhile_append_of_pos open_]
    simp
  have left : (contents ++ ['"'] ++ rest).dropWhile (· ≠ '"') = '"' :: rest := by
    rw [List.append_assoc, List.dropWhile_append_of_pos open_]
    simp
  refine ⟨.string (String.ofList contents), [], ?_, fun _ => rfl⟩
  unfold firstPiece
  rw [if_neg (by decide), if_pos rfl, left]
  simp only [taken, List.append_nil]

/-- A number at the front is found, or a longer one. -/
theorem extends_number {c : Char} {p : List Char} {value : Float} (numeral : IsNumeral (c :: p))
    (read : Decimal.readNumeral? (String.ofList (c :: p)) = some value) (rest : List Char) :
    (firstPiece c (p ++ rest)).1.Extends (c :: p) (.number value) := by
  generalize spelt : c :: p = text at numeral read
  cases numeral with
  | whole h =>
    subst spelt
    have digit : c.isDigit = true := h.2 c List.mem_cons_self
    have others : ∀ d ∈ p, d.isDigit = true := fun d mem => h.2 d (List.mem_cons_of_mem c mem)
    have taken : (p ++ rest).takeWhile Char.isDigit = p ++ rest.takeWhile Char.isDigit :=
      List.takeWhile_append_of_pos others
    by_cases point : IsPoint ((p ++ rest).dropWhile Char.isDigit)
    · obtain ⟨d, more, found, digit'⟩ := point
      rw [firstPiece_decimal digit _ found digit', taken]
      rw [← List.cons_append, List.append_assoc]
      exact .longer _ _ (by simp)
    · rw [firstPiece_whole digit _ point, taken]
      refine ⟨_, rest.takeWhile Char.isDigit, rfl, fun nothing => ?_⟩
      rw [nothing, List.append_nil, numberKind, List.append_nil]
      exact congrArg Kind.number (Option.some.inj ((readNumeral?_whole h).symm.trans read))
  | @decimal digits fraction h h' =>
    obtain ⟨c', others, rfl, digit, all⟩ := h.exists_cons
    obtain ⟨d, more, rfl, digit', -⟩ := h'.exists_cons
    rw [List.cons_append] at spelt
    obtain ⟨rfl, rfl⟩ := List.cons.inj spelt
    have taken : (others ++ '.' :: d :: more ++ rest).takeWhile Char.isDigit = others := by
      rw [List.append_assoc, List.takeWhile_append_of_pos all]
      simp
    have left : (others ++ '.' :: d :: more ++ rest).dropWhile Char.isDigit =
        '.' :: d :: (more ++ rest) := by
      rw [List.append_assoc, List.dropWhile_append_of_pos all]
      simp
    have text : c :: others ++ '.' :: (d :: more ++ rest.takeWhile Char.isDigit) =
        (c :: others ++ '.' :: d :: more) ++ rest.takeWhile Char.isDigit := by
      simp
    rw [firstPiece_decimal digit _ left digit', taken, ← List.cons_append, h'.takeWhile rest, text]
    refine ⟨_, _, rfl, fun nothing => ?_⟩
    rw [nothing, List.append_nil, numberKind]
    exact congrArg Kind.number (Option.some.inj ((readNumeral?_decimal h h').symm.trans read))

/-- **Where a lexeme begins, and no comment, the first piece is a token** that is at least as
long. -/
theorem Lexeme.firstPiece {c : Char} {p : List Char} {kind : Kind} (h : Lexeme (c :: p) kind)
    (rest : List Char) (noComment : ¬ (c = '/' ∧ (p ++ rest).head? = some '/')) :
    (Lox.firstPiece c (p ++ rest)).1.Extends (c :: p) kind := by
  generalize spelt : c :: p = text at h
  cases h with
  | symbol symbol =>
    rw [← spelt]
    exact extends_symbol spelt.symm rest noComment
  | keyword word =>
    have kind := wordKind_keyword word
    have shape := word.isWord
    rw [← spelt] at kind shape ⊢
    exact extends_word shape kind rest
  | identifier word free =>
    subst spelt
    exact extends_word word (wordKind_eq_identifier.2 free) rest
  | string closed =>
    obtain ⟨rfl, rfl⟩ := List.cons.inj spelt
    exact extends_string closed rest
  | number numeral read =>
    subst spelt
    exact extends_number numeral read rest

/-- A lexeme has a first character, and does not begin like a comment. -/
theorem Lexeme.exists_cons {text : List Char} {kind : Kind} (h : Lexeme text kind) :
    ∃ c p, text = c :: p ∧ ¬ (c = '/' ∧ p.head? = some '/') := by
  have word : ∀ {text : List Char}, IsWord text →
      ∃ c p, text = c :: p ∧ ¬ (c = '/' ∧ p.head? = some '/') := by
    rintro _ ⟨start, -⟩
    refine ⟨_, _, rfl, ?_⟩
    rintro ⟨rfl, -⟩
    cases start
  have number : ∀ {digits more : List Char}, IsDigits digits →
      ∃ c p, digits ++ more = c :: p ∧ ¬ (c = '/' ∧ p.head? = some '/') := by
    intro digits more h
    obtain ⟨c, rest, rfl, digit, -⟩ := h.exists_cons
    refine ⟨c, _, rfl, ?_⟩
    rintro ⟨rfl, -⟩
    cases digit
  cases h with
  | symbol symbol =>
    rcases symbol.text_cases with ⟨c, -, text⟩ | ⟨c, one, -, -, text⟩
    · exact ⟨c, [], text, by rintro ⟨-, ⟨⟩⟩⟩
    · exact ⟨c, ['='], text, by rintro ⟨-, ⟨⟩⟩⟩
  | keyword keyword => exact word keyword.isWord
  | identifier shape free => exact word shape
  | string closed => exact ⟨'"', _, rfl, fun ⟨other, _⟩ => absurd other (by decide)⟩
  | number numeral read =>
    cases numeral with
    | whole h =>
      have found := @number _ [] h
      rwa [List.append_nil] at found
    | decimal h h' => exact number h

/-- **A text is a lexeme of one kind at most.** -/
theorem Lexeme.kind_eq {text : List Char} {kind kind' : Kind} (h : Lexeme text kind)
    (h' : Lexeme text kind') : kind = kind' := by
  obtain ⟨c, p, rfl, noComment⟩ := h.exists_cons
  have length := congrArg List.length (firstPiece_append c p)
  rw [← List.append_nil p] at noComment
  obtain ⟨one, more, piece, same⟩ := h.firstPiece [] noComment
  obtain ⟨other, more', piece', same'⟩ := h'.firstPiece [] noComment
  rw [List.append_nil] at piece piece'
  rw [piece, List.length_append, List.length_append] at length
  have nothing : more = [] := List.length_eq_zero_iff.1 (by omega)
  subst nothing
  obtain ⟨kinds, texts⟩ := Piece.mk.inj (piece.symm.trans piece')
  rw [← same rfl, ← same' (List.append_cancel_left texts).symm, PieceKind.token.inj kinds]

/-! ## 5. Tokens are lexemes

The other way round: what the scanner takes for a token is in the grammar. -/

theorem isDigits_takeWhile {c : Char} (digit : c.isDigit = true) (rest : List Char) :
    IsDigits (c :: rest.takeWhile Char.isDigit) := by
  refine ⟨List.cons_ne_nil _ _, fun d mem => ?_⟩
  rcases List.mem_cons.1 mem with rfl | mem
  · exact digit
  · exact List.mem_takeWhile_imp mem

/-- A piece that begins with a digit is a number, and is one whole or with a fraction. -/
theorem lexeme_numberKind {c : Char} (digit : c.isDigit = true) (rest : List Char)
    {kind : Kind} (token : (firstPiece c rest).1.kind = .token kind) :
    Lexeme (firstPiece c rest).1.text kind := by
  have whole := isDigits_takeWhile digit rest
  by_cases point : IsPoint (rest.dropWhile Char.isDigit)
  · obtain ⟨d, more, found, digit'⟩ := point
    have fraction := isDigits_takeWhile digit' more
    rw [← List.takeWhile_cons_of_pos digit'] at fraction
    rw [firstPiece_decimal digit rest found digit'] at token ⊢
    cases token
    exact .number (.decimal whole fraction) (readNumeral?_decimal whole fraction)
  · rw [firstPiece_whole digit rest point] at token ⊢
    cases token
    refine .number (.whole whole) ?_
    rw [readNumeral?_whole whole, List.append_nil]
    rfl

/-- **A piece that is a token is a lexeme** of its kind. -/
theorem lexeme_firstPiece {c : Char} {rest : List Char} {kind : Kind}
    (token : (firstPiece c rest).1.kind = .token kind) :
    Lexeme (firstPiece c rest).1.text kind := by
  by_cases digit : c.isDigit = true
  · exact lexeme_numberKind digit rest token
  by_cases start : isNameStart c = true
  · rw [firstPiece_word start] at token ⊢
    cases token
    exact lexeme_wordKind ⟨start, fun d mem => List.mem_takeWhile_imp mem⟩
  revert token
  unfold firstPiece
  rw [if_neg digit, if_neg start]
  split
  · rintro ⟨⟩
  split
  · rename_i quote
    subst quote
    dsimp only
    split
    · rintro ⟨⟩
    · rename_i mark after found
      have closing : mark = '"' := by
        have := List.head?_dropWhile_not (· ≠ '"') rest
        rw [found] at this
        simpa using this
      subst closing
      rintro ⟨⟩
      refine .string fun mem => ?_
      simpa using List.mem_takeWhile_imp mem
  split
  · rintro ⟨⟩
  split
  · rintro ⟨⟩
  · rename_i symbol single
    split
    · rename_i double after found _
      rintro ⟨⟩
      have text := Symbol.text_of_withEqual? found single
      have lexeme := Lexeme.symbol double
      rwa [text, String.toList_ofList] at lexeme
    · rintro ⟨⟩
      have lexeme := Lexeme.symbol symbol
      rwa [Symbol.text_of_single? single, String.toList_ofList] at lexeme

/-! ## 6. Pieces by their first characters

What is no token is a blank, a comment, an open quote or a stray character. -/

/-- A character between tokens. -/
abbrev IsBlank (c : Char) : Prop := c = ' ' ∨ c = '\r' ∨ c = '\t' ∨ c = '\n'

/-- A blank is a gap by itself. -/
theorem firstPiece_blank {c : Char} (blank : IsBlank c) (rest : List Char) :
    firstPiece c rest = (⟨.gap, [c]⟩, rest) := by
  rw [firstPiece, if_pos blank]

/-- A string goes on to the next quote, or is never closed. -/
theorem firstPiece_quote (rest : List Char) :
    ('"' ∉ rest ∧ firstPiece '"' rest = (⟨.unclosed, '"' :: rest⟩, [])) ∨
      ∃ contents after, '"' ∉ contents ∧ rest = contents ++ '"' :: after ∧
        firstPiece '"' rest =
          (⟨.token (.string (String.ofList contents)), '"' :: contents ++ ['"']⟩, after) := by
  have parts := List.takeWhile_append_dropWhile (p := fun c => decide (c ≠ '"')) (l := rest)
  have open_ : '"' ∉ rest.takeWhile (· ≠ '"') := fun h => by
    simpa using List.mem_takeWhile_imp h
  cases found : rest.dropWhile (· ≠ '"') with
  | nil =>
    rw [found, List.append_nil] at parts
    refine .inl ⟨parts ▸ open_, ?_⟩
    rw [firstPiece, if_neg (by decide), if_pos rfl, found]
    dsimp only
    rw [parts]
  | cons quote after =>
    have closing : quote = '"' := by
      have := List.head?_dropWhile_not (fun c => decide (c ≠ '"')) rest
      rw [found] at this
      simpa using this
    subst closing
    rw [found] at parts
    refine .inr ⟨_, after, open_, parts.symm, ?_⟩
    rw [firstPiece, if_neg (by decide), if_pos rfl, found]

/-- A comment goes on to the next newline, or to the end. -/
theorem firstPiece_comment (rest : List Char) : firstPiece '/' ('/' :: rest) =
    (⟨.gap, '/' :: '/' :: rest.takeWhile (· ≠ '\n')⟩, rest.dropWhile (· ≠ '\n')) := by
  rw [firstPiece, if_neg (by decide), if_neg (by decide), if_neg (by decide), if_neg (by decide),
    if_pos ⟨rfl, rfl⟩]
  rfl

theorem not_mem_comment (rest : List Char) : '\n' ∉ '/' :: '/' :: rest.takeWhile (· ≠ '\n') := by
  simp only [List.mem_cons, not_or]
  exact ⟨by decide, by decide, fun mem => by simpa using List.mem_takeWhile_imp mem⟩

/-- The characters with which nothing else begins. -/
structure IsOther (c : Char) : Prop where
  blank : ¬ IsBlank c
  quote : c ≠ '"'
  digit : ¬ c.isDigit = true
  start : ¬ isNameStart c = true
  single : Symbol.single? c = none

theorem IsOther.ne_slash {c : Char} (other : IsOther c) : c ≠ '/' := by
  rintro rfl
  cases other.single

/-- A character with which nothing begins is a stray. -/
theorem firstPiece_other {c : Char} (other : IsOther c) (rest : List Char) :
    firstPiece c rest = (⟨.stray, [c]⟩, rest) := by
  rw [firstPiece, if_neg other.blank, if_neg other.quote, if_neg other.digit, if_neg other.start,
    if_neg fun h => other.ne_slash h.1, other.single]

/-- What holds of the seven ways in which a text can begin holds of every text. -/
theorem firstPiece_cases {motive : Char → List Char → Prop}
    (blank : ∀ c rest, IsBlank c → motive c rest)
    (quote : ∀ rest, motive '"' rest)
    (digit : ∀ c rest, c.isDigit = true → motive c rest)
    (name : ∀ c rest, isNameStart c = true → motive c rest)
    (comment : ∀ rest, motive '/' ('/' :: rest))
    (symbol : ∀ c rest symbol, ¬ (c = '/' ∧ rest.head? = some '/') →
      Symbol.single? c = some symbol → motive c rest)
    (other : ∀ c rest, IsOther c → motive c rest) (c : Char) (rest : List Char) :
    motive c rest := by
  by_cases isBlank : IsBlank c
  · exact blank c rest isBlank
  by_cases isQuote : c = '"'
  · exact isQuote ▸ quote rest
  by_cases isDigit : c.isDigit = true
  · exact digit c rest isDigit
  by_cases start : isNameStart c = true
  · exact name c rest start
  by_cases isComment : c = '/' ∧ rest.head? = some '/'
  · obtain ⟨rfl, next⟩ := isComment
    obtain ⟨more, rfl⟩ := List.head?_eq_some_iff.1 next
    exact comment more
  cases single : Symbol.single? c with
  | some found => exact symbol c rest found isComment single
  | none => exact other c rest ⟨isBlank, isQuote, isDigit, start, single⟩

end Lox
