/-
# Scanning by offsets

A `Scanner` goes over a text by an iterator that gives the characters with their byte offsets, one
after the other, and takes the text of a token out of the whole text, between two offsets.  Much
can go wrong on this way that `scan` does not know of: offsets may be out of bounds or inside a
character, or the first behind the second (`slice?`); the iterator may have no more characters; and
what has been taken for a number may not be a numeral.

None of it ever happens.  A turn of the scanner takes exactly the first piece of what is left
(`Scanner.scanToken_eq`), so as many turns as there are characters are enough, and give what `scan`
gives (`Scanner.run_eq`).

Main statement: `scan_reports_exactly_the_faults`.
-/
import Lox.Proofs.Token.Fault

namespace Lox

/-! ## 1. Offsets

A text is taken from between two offsets, each of which may be bad in several ways.  Where a text is
split in two, none of them is. -/

/-- The number of bytes of a text. -/
def utf8Length : List Char → Nat
  | [] => 0
  | c :: rest => c.utf8Size + utf8Length rest

/-- The characters of a text with the offsets of their first bytes. -/
def charIndices : (offset : Nat) → List Char → List (Nat × Char)
  | _, [] => []
  | offset, c :: rest => (offset, c) :: charIndices (offset + c.utf8Size) rest

/-- The text from an offset on, unless that is out of bounds or inside a character. -/
def dropBytes? : (offset : Nat) → List Char → Option (List Char)
  | 0, text => some text
  | _ + 1, [] => none
  | n + 1, c :: rest =>
    if c.utf8Size ≤ n + 1 then dropBytes? (n + 1 - c.utf8Size) rest else none

/-- The text up to an offset, unless that is out of bounds or inside a character. -/
def takeBytes? : (offset : Nat) → List Char → Option (List Char)
  | 0, _ => some []
  | _ + 1, [] => none
  | n + 1, c :: rest =>
    if c.utf8Size ≤ n + 1 then (takeBytes? (n + 1 - c.utf8Size) rest).map (c :: ·) else none

/-- The text between two offsets, unless they are in the wrong order, out of bounds or inside a
character. -/
def slice? (text : List Char) (start stop : Nat) : Option (List Char) :=
  if start ≤ stop then (dropBytes? start text).bind (takeBytes? (stop - start)) else none

theorem utf8Length_cons (c : Char) (text : List Char) :
    utf8Length (c :: text) = c.utf8Size + utf8Length text := rfl

/-- The number of bytes of two texts, one behind the other. -/
theorem utf8Length_append (text text' : List Char) :
    utf8Length (text ++ text') = utf8Length text + utf8Length text' := by
  induction text with
  | nil => exact (Nat.zero_add _).symm
  | cons c rest ih => rw [List.cons_append, utf8Length_cons, utf8Length_cons, ih, Nat.add_assoc]

/-- An offset at the end of a text is in bounds, and not inside a character. -/
theorem dropBytes?_append (before after : List Char) :
    dropBytes? (utf8Length before) (before ++ after) = some after := by
  induction before with
  | nil => cases after <;> rfl
  | cons c before ih =>
    have pos := c.utf8Size_pos
    obtain ⟨n, hn⟩ : ∃ n, c.utf8Size + utf8Length before = n + 1 :=
      ⟨c.utf8Size + utf8Length before - 1, by omega⟩
    rw [utf8Length_cons, hn, List.cons_append, dropBytes?, if_pos (by omega),
      show n + 1 - c.utf8Size = utf8Length before by omega, ih]

/-- So is it as the end of what is taken. -/
theorem takeBytes?_append (text after : List Char) :
    takeBytes? (utf8Length text) (text ++ after) = some text := by
  induction text with
  | nil => cases after <;> rfl
  | cons c text ih =>
    have pos := c.utf8Size_pos
    obtain ⟨n, hn⟩ : ∃ n, c.utf8Size + utf8Length text = n + 1 :=
      ⟨c.utf8Size + utf8Length text - 1, by omega⟩
    rw [utf8Length_cons, hn, List.cons_append, takeBytes?, if_pos (by omega),
      show n + 1 - c.utf8Size = utf8Length text by omega, ih]
    rfl

/-- A stretch of a text is what is between its offsets. -/
theorem slice?_append (before text after : List Char) :
    slice? (before ++ (text ++ after)) (utf8Length before) (utf8Length before + utf8Length text) =
      some text := by
  rw [slice?, if_pos (Nat.le_add_right _ _), dropBytes?_append, Option.bind_some,
    Nat.add_sub_cancel_left, takeBytes?_append]

/-- To pass over characters is to go to the offset behind them. -/
theorem dropWhile_charIndices (p : Char → Bool) (offset : Nat) (text : List Char) :
    (charIndices offset text).dropWhile (fun entry => p entry.2) =
      charIndices (offset + utf8Length (text.takeWhile p)) (text.dropWhile p) := by
  induction text generalizing offset with
  | nil => rfl
  | cons c rest ih =>
    rw [charIndices, List.dropWhile_cons, List.takeWhile_cons, List.dropWhile_cons]
    split
    · rw [ih, utf8Length_cons, Nat.add_assoc]
    · rfl

/-! ## 2. The scanner

The scanner as it runs, with everything that can go wrong.  A step that has no result stands for a
failure that would end the program. -/

/-- A scanner in the course of a text. -/
structure Scanner where
  source : List Char
  /-- What the iterator is still to give. -/
  iter : List (Nat × Char)
  /-- The offset at which the current token begins. -/
  start : Nat
  line : Nat

namespace Scanner

/-- What a scanner can report. -/
inductive Fault where
  | unexpectedCharacter
  | unterminatedString
  | failedToAdvance
  | invalidNumber
  deriving DecidableEq

/-- A fault and its line. -/
structure Report where
  line : Nat
  fault : Fault

/-- The offset of the next character. -/
def current (s : Scanner) : Nat :=
  match s.iter with
  | [] => utf8Length s.source
  | (offset, _) :: _ => offset

/-- The text of the current token, unless there is no such text. -/
def lexeme? (s : Scanner) : Option (List Char) := slice? s.source s.start s.current

/-- The current token. -/
def token? (s : Scanner) (kind : Kind) : Option Token :=
  s.lexeme?.map fun text => ⟨kind, String.ofList text, s.line⟩

/-- Passes over characters. -/
def skipWhile (p : Char → Bool) (s : Scanner) : Scanner :=
  { s with iter := s.iter.dropWhile fun entry => p entry.2 }

/-- Passes over the next character if it is a given one. -/
def nextIf (s : Scanner) (expected : Char) : Bool × Scanner :=
  match s.iter with
  | (_, c) :: rest => if c = expected then (true, { s with iter := rest }) else (false, s)
  | [] => (false, s)

/-- What comes of a turn: a token or none, or a report; or nothing at all, if a text was to be taken
from between offsets that do not allow it. -/
abbrev Turn := Option (Except Report (Option Token) × Scanner)

/-- The turn that ends with the current token. -/
def give (s : Scanner) (kind : Kind) : Turn := (s.token? kind).map fun token => (.ok token, s)

/-- Passes over the rest of a string: whether there is a closing quote, the line, and what is
left. -/
def passString : (line : Nat) → List (Nat × Char) → Bool × Nat × List (Nat × Char)
  | line, [] => (false, line, [])
  | line, (_, c) :: rest =>
    if c = '"' then (true, line, rest)
    else passString (if c = '\n' then line + 1 else line) rest

/-- A string, behind its opening quote. -/
def string (s : Scanner) : Turn :=
  let (closed, line, rest) := passString s.line s.iter
  let after := { s with line := line, iter := rest }
  if closed then
    (slice? s.source (s.start + 1) (after.current - 1)).bind fun contents =>
      after.give (.string (String.ofList contents))
  else some (.error ⟨s.line, .unterminatedString⟩, after)

/-- Passes over a point and the digits behind it, if there are any. -/
def passFraction (s : Scanner) : Scanner :=
  match s.iter with
  | (_, '.') :: (offset, d) :: rest =>
    if d.isDigit then { s with iter := (offset, d) :: rest }.skipWhile Char.isDigit else s
  | _ => s

/-- Passes over the digits of a number and, if digits are behind it, a point. -/
def passNumber (s : Scanner) : Scanner := (s.skipWhile Char.isDigit).passFraction

/-- A number, behind its first digit. -/
def number (s : Scanner) : Turn :=
  let after := s.passNumber
  after.lexeme?.bind fun text =>
    match Decimal.readNumeral? (String.ofList text) with
    | some value => after.give (.number value)
    | none => some (.error ⟨after.line, .invalidNumber⟩, after)

/-- A word, behind its first letter. -/
def word (s : Scanner) : Turn :=
  let after := s.skipWhile isNameRest
  after.lexeme?.bind fun text => after.give (wordKind text)

/-- Passes over what goes with a first character. -/
def follow (s : Scanner) (c : Char) : Turn :=
  match Symbol.single? c with
  | some symbol =>
    if c = '/' then
      let (comment, after) := s.nextIf '/'
      if comment then some (.ok none, after.skipWhile (· ≠ '\n')) else after.give (.symbol symbol)
    else
      match symbol.withEqual? with
      | some double =>
        let (longer, after) := s.nextIf '='
        after.give (.symbol (if longer then double else symbol))
      | none => s.give (.symbol symbol)
  | none =>
    if c = ' ' ∨ c = '\r' ∨ c = '\t' then some (.ok none, s)
    else if c = '\n' then some (.ok none, { s with line := s.line + 1 })
    else if c = '"' then s.string
    else if c.isDigit then s.number
    else if isNameStart c then s.word
    else some (.error ⟨s.line, .unexpectedCharacter⟩, s)

/-- A turn: takes the next character, and what goes with it. -/
def scanToken (s : Scanner) : Turn :=
  match s.iter with
  | [] => some (.error ⟨s.line, .failedToAdvance⟩, s)
  | (_, c) :: rest => { s with iter := rest }.follow c

/-- Takes turns until there are no more characters: the tokens, the reports and the last line. -/
def scanAll : (turns : Nat) → Scanner → Option (List Token × List Report × Nat)
  | turns, s =>
    match s.iter, turns with
    | [], _ => some ([], [], s.line)
    | _ :: _, 0 => none
    | (offset, _) :: _, turns + 1 => do
      let (found, after) ← scanToken { s with start := offset }
      let (tokens, reports, line) ← scanAll turns after
      match found with
      | .ok (some token) => return (token :: tokens, reports, line)
      | .ok none => return (tokens, reports, line)
      | .error report => return (tokens, report :: reports, line)

/-- Scans a text in so many turns. -/
def run (turns : Nat) (source : String) : Option (Except (List Report) TokenStream) := do
  let text := source.toList
  let (tokens, reports, line) ← scanAll turns ⟨text, charIndices 0 text, 0, 1⟩
  return if reports.isEmpty then .ok ⟨tokens, line⟩ else .error reports

/-! ## 3. A turn takes a piece

All that a scanner is going to do depends on what is in front of it, so its state is written as
three texts: what has been passed over before, the current token, and what is left. -/

/-- A scanner whose current token is some text, with more behind it. -/
def behind (before text after : List Char) (line : Nat) : Scanner where
  source := before ++ (text ++ after)
  iter := charIndices (utf8Length before + utf8Length text) after
  start := utf8Length before
  line := line

section Behind

variable (before text after : List Char) (line : Nat)

/-- The next character begins where the text of the token ends. -/
@[simp] theorem current_behind :
    (behind before text after line).current = utf8Length before + utf8Length text := by
  cases after with
  | nil => simp [current, behind, charIndices, utf8Length_append]
  | cons c after => rfl

/-- The text of the token can always be taken. -/
@[simp] theorem lexeme?_behind : (behind before text after line).lexeme? = some text := by
  rw [lexeme?, current_behind]
  exact slice?_append before text after

/-- The text between the two offsets is the text of the token. -/
@[simp] theorem give_behind (kind : Kind) : (behind before text after line).give kind =
    some (.ok (some ⟨kind, String.ofList text, line⟩), behind before text after line) := by
  rw [give, token?, lexeme?_behind]
  rfl

/-- To pass over a character makes it part of the token. -/
theorem behind_cons (c : Char) (rest : List Char) :
    { behind before text (c :: rest) line with
        iter := charIndices (utf8Length before + utf8Length text + c.utf8Size) rest } =
      behind before (text ++ [c]) rest line := by
  have length : utf8Length (text ++ [c]) = utf8Length text + c.utf8Size := by
    rw [utf8Length_append]
    rfl
  simp only [behind, length, List.append_assoc, List.singleton_append, Nat.add_assoc]

/-- So it is for as many characters as fit. -/
theorem skipWhile_behind (p : Char → Bool) : (behind before text after line).skipWhile p =
    behind before (text ++ after.takeWhile p) (after.dropWhile p) line := by
  rw [skipWhile, behind, behind]
  simp only [dropWhile_charIndices, utf8Length_append, List.append_assoc,
    List.takeWhile_append_dropWhile, Nat.add_assoc]

/-- The expected character is there. -/
theorem nextIf_behind_cons (c : Char) (rest : List Char) :
    (behind before text (c :: rest) line).nextIf c =
      (true, behind before (text ++ [c]) rest line) := by
  rw [← behind_cons]
  exact if_pos rfl

/-- The expected character is not there, and nothing changes. -/
theorem nextIf_behind {expected : Char} (other : after.head? ≠ some expected) :
    (behind before text after line).nextIf expected =
      (false, behind before text after line) := by
  cases after with
  | nil => rfl
  | cons c rest => exact if_neg fun same => other (congrArg some same)

end Behind

/-- A string is passed over up to its closing quote. -/
theorem passString_append {contents : List Char} (open_ : '"' ∉ contents) (line offset : Nat)
    (after : List Char) :
    passString line (charIndices offset (contents ++ after)) =
      passString (line + contents.count '\n')
        (charIndices (offset + utf8Length contents) after) := by
  induction contents generalizing line offset with
  | nil => rfl
  | cons c contents ih =>
    obtain ⟨other, open_⟩ := not_or.1 (mt List.mem_cons.2 open_)
    rw [List.cons_append, charIndices, passString, if_neg (Ne.symm other), ih open_,
      utf8Length_cons, Nat.add_assoc offset, List.count_cons]
    by_cases newline : c = '\n' <;> simp [newline, Nat.add_comm, Nat.add_left_comm]

/-- The text of a string is between two offsets that are next to the quotes. -/
theorem string_closed (before : List Char) {contents : List Char} (open_ : '"' ∉ contents)
    (after : List Char) (line : Nat) :
    (behind before ['"'] (contents ++ '"' :: after) line).string =
      (behind before ('"' :: contents ++ ['"']) after (line + contents.count '\n')).give
        (.string (String.ofList contents)) := by
  have quote : utf8Length ['"'] = 1 := rfl
  have length : utf8Length ('"' :: contents ++ ['"']) = 1 + utf8Length contents + 1 := by
    rw [List.cons_append, utf8Length_cons, utf8Length_append, quote, ← Nat.add_assoc]
    rfl
  have passed : passString (behind before ['"'] (contents ++ '"' :: after) line).line
      (behind before ['"'] (contents ++ '"' :: after) line).iter =
        (true, line + contents.count '\n',
          charIndices (utf8Length before + 1 + utf8Length contents + 1) after) :=
    passString_append open_ line (utf8Length before + 1) ('"' :: after)
  have same : { behind before ['"'] (contents ++ '"' :: after) line with
      line := line + contents.count '\n'
      iter := charIndices (utf8Length before + 1 + utf8Length contents + 1) after } =
      behind before ('"' :: contents ++ ['"']) after (line + contents.count '\n') := by
    rw [behind, behind, length]
    simp [Nat.add_assoc]
  have slice : slice? (before ++ (['"'] ++ (contents ++ '"' :: after))) (utf8Length before + 1)
      (utf8Length before + (1 + utf8Length contents + 1) - 1) = some contents := by
    have found := slice?_append (before ++ ['"']) contents ('"' :: after)
    rw [utf8Length_append, quote, List.append_assoc] at found
    rw [← found]
    congr 1
    omega
  rw [string, passed]
  dsimp only
  rw [if_pos rfl, same, current_behind, length]
  exact congrArg (Option.bind · _) slice

/-- An unclosed string takes all that is left. -/
theorem string_open (before : List Char) {contents : List Char} (open_ : '"' ∉ contents)
    (line : Nat) :
    (behind before ['"'] contents line).string = some (.error ⟨line, .unterminatedString⟩,
      behind before ('"' :: contents) [] (line + contents.count '\n')) := by
  have passed : passString (behind before ['"'] contents line).line
      (behind before ['"'] contents line).iter = (false, line + contents.count '\n', []) := by
    have all := passString_append open_ line (utf8Length before + 1) []
    rw [List.append_nil] at all
    exact all
  rw [string, passed]
  simp [behind, charIndices]

/-- No point that belongs to the number follows. -/
theorem passFraction_whole (before text : List Char) {after : List Char} (line : Nat)
    (point : ¬ IsPoint after) :
    (behind before text after line).passFraction = behind before text after line := by
  rw [passFraction]
  split
  · rename_i at_ offset d rest found
    refine if_neg fun digit => point ?_
    rcases after with _ | ⟨c, _ | ⟨d', more⟩⟩
    · cases found
    · cases found
    · obtain ⟨⟨-, rfl⟩, ⟨-, rfl⟩, -⟩ : (_ = at_ ∧ c = '.') ∧ (_ = offset ∧ d' = d) ∧ _ = rest := by
        simpa [behind, charIndices] using found
      exact ⟨d', more, rfl, digit⟩
  · rfl

/-- A point with a digit behind it is passed over, with all digits. -/
theorem passFraction_decimal (before text : List Char) (line : Nat) {d : Char} (more : List Char)
    (digit : d.isDigit = true) :
    (behind before text ('.' :: d :: more) line).passFraction =
      behind before (text ++ '.' :: (d :: more).takeWhile Char.isDigit)
        ((d :: more).dropWhile Char.isDigit) line := by
  have passed := skipWhile_behind before (text ++ ['.']) (d :: more) line Char.isDigit
  rw [← behind_cons, List.append_assoc] at passed
  refine Eq.trans ?_ passed
  exact if_pos digit

/-- What comes of a turn that takes a piece. -/
def outcome (line : Nat) (piece : Piece) : Except Report (Option Token) :=
  match piece.kind with
  | .token kind => .ok (some ⟨kind, String.ofList piece.text, line + piece.text.count '\n'⟩)
  | .gap => .ok none
  | .stray => .error ⟨line, .unexpectedCharacter⟩
  | .unclosed => .error ⟨line, .unterminatedString⟩

section Take

variable (before : List Char) (line : Nat) (c : Char) (rest : List Char)

/-- What goes with a character is the rest of the first piece. -/
def Takes : Prop :=
  (behind before [c] rest line).follow c = some (outcome line (firstPiece c rest).1,
    behind before (firstPiece c rest).1.text (firstPiece c rest).2
      (line + (firstPiece c rest).1.text.count '\n'))

variable {before line c rest}

/-- What a turn takes is the first piece of what is left, if the turn passes over the rest of the
piece. -/
theorem Takes.of {piece : Piece} (after : List Char) (first : (firstPiece c rest).1 = piece)
    (append : piece.text ++ after = c :: rest)
    (turn : (behind before [c] rest line).follow c = some (outcome line piece,
      behind before piece.text after (line + piece.text.count '\n'))) :
    Takes before line c rest := by
  have whole := firstPiece_append c rest
  rw [first, ← append] at whole
  rw [Takes, first, List.append_cancel_left whole]
  exact turn

/-- A token without a newline. -/
theorem Takes.of_token {kind : Kind} {text : List Char} (after : List Char)
    (first : (firstPiece c rest).1 = ⟨.token kind, text⟩) (append : text ++ after = c :: rest)
    (flat : '\n' ∉ text)
    (turn : (behind before [c] rest line).follow c = (behind before text after line).give kind) :
    Takes before line c rest := by
  refine .of _ first append ?_
  rw [turn, give_behind, outcome, List.count_eq_zero.2 flat]
  rfl

variable (before line rest)

/-- A blank is passed over. -/
theorem takes_blank (blank : IsBlank c) : Takes before line c rest := by
  have first : (firstPiece c rest).1 = ⟨.gap, [c]⟩ := by rw [firstPiece_blank blank]
  refine .of _ first rfl ?_
  rcases blank with rfl | rfl | rfl | rfl <;> rfl

/-- A string is passed over up to its closing quote, or up to the end of the text. -/
theorem takes_quote : Takes before line '"' rest := by
  have turn : (behind before ['"'] rest line).follow '"' =
    (behind before ['"'] rest line).string := rfl
  rcases firstPiece_quote rest with ⟨open_, piece⟩ | ⟨contents, after, open_, rfl, piece⟩
  · rw [Takes, piece, turn, string_open before open_]
    simp [outcome]
  · rw [Takes, piece, turn, string_closed before open_]
    simp [outcome, List.count_append]

/-- What is taken for a number is a numeral. -/
theorem number_eq {text after : List Char} {value : Float}
    (passed : (behind before [c] rest line).passNumber = behind before text after line)
    (read : Decimal.readNumeral? (String.ofList text) = some value) :
    (behind before [c] rest line).number =
      (behind before text after line).give (.number value) := by
  rw [number, passed, lexeme?_behind, Option.bind_some, read]

/-- A number is passed over with its fraction, and what has been taken is a numeral. -/
theorem takes_digit (digit : c.isDigit = true) : Takes before line c rest := by
  have single : Symbol.single? c = none := Option.eq_none_iff_forall_ne_some.2 fun symbol h => by
    cases digit.symm.trans (Symbol.not_isDigit_of_single? h).1
  have turn : (behind before [c] rest line).follow c = (behind before [c] rest line).number := by
    rw [follow, single]
    dsimp only
    rw [if_neg (by rintro (rfl | rfl | rfl) <;> cases digit),
      if_neg (by rintro rfl; cases digit), if_neg (by rintro rfl; cases digit), if_pos digit]
  have parts := List.takeWhile_append_dropWhile (p := Char.isDigit) (l := rest)
  have whole := isDigits_takeWhile digit rest
  have flat : ∀ {text}, IsDigits text → '\n' ∉ text := fun h mem => by cases h.2 _ mem
  have skipped := skipWhile_behind before [c] rest line Char.isDigit
  by_cases point : IsPoint (rest.dropWhile Char.isDigit)
  · obtain ⟨d, more, found, digit'⟩ := point
    have fraction := isDigits_takeWhile digit' more
    rw [← List.takeWhile_cons_of_pos digit'] at fraction
    rw [found] at parts skipped
    have passed : (behind before [c] rest line).passNumber = _ :=
      (congrArg passFraction skipped).trans (passFraction_decimal _ _ line more digit')
    refine .of_token ((d :: more).dropWhile Char.isDigit)
      (firstPiece_decimal digit rest found digit') ?_ ?_ ?_
    · rw [List.append_assoc, List.cons_append, List.cons_append, List.takeWhile_append_dropWhile,
        parts]
    · rw [List.mem_append, List.mem_cons (a := '\n') (b := '.')]
      exact not_or.2 ⟨flat whole, not_or.2 ⟨by decide, flat fraction⟩⟩
    · exact turn.trans (number_eq before line rest passed (readNumeral?_decimal whole fraction))
  · have passed : (behind before [c] rest line).passNumber = _ :=
      (congrArg passFraction skipped).trans (passFraction_whole _ _ line point)
    refine .of_token _ (firstPiece_whole digit rest point) (congrArg (c :: ·) parts)
      (flat whole) ?_
    rw [turn, number_eq before line rest passed (readNumeral?_whole whole), numberKind,
      List.append_nil]
    rfl

/-- A word is passed over, and its kind is found from its text. -/
theorem takes_name (start : isNameStart c = true) : Takes before line c rest := by
  have single : Symbol.single? c = none := Option.eq_none_iff_forall_ne_some.2 fun symbol h => by
    cases start.symm.trans (Symbol.not_isDigit_of_single? h).2
  have turn : (behind before [c] rest line).follow c = (behind before [c] rest line).word := by
    rw [follow, single]
    dsimp only
    rw [if_neg (by rintro (rfl | rfl | rfl) <;> cases start),
      if_neg (by rintro rfl; cases start), if_neg (by rintro rfl; cases start),
      if_neg (not_isDigit_of_isNameStart start), if_pos start]
  have parts := List.takeWhile_append_dropWhile (p := isNameRest) (l := rest)
  refine .of_token _ (firstPiece_word start rest) (congrArg (c :: ·) parts) ?_ ?_
  · rintro mem
    rcases List.mem_cons.1 mem with rfl | mem
    · cases start
    · cases List.mem_takeWhile_imp mem
  · rw [turn, word, skipWhile_behind, lexeme?_behind]
    rfl

theorem follow_slash (s : Scanner) : s.follow '/' =
    if (s.nextIf '/').1 then some (.ok none, (s.nextIf '/').2.skipWhile (· ≠ '\n'))
    else (s.nextIf '/').2.give (.symbol .slash) := rfl

/-- A symbol is passed over with the equals sign behind it, if the two form one symbol. -/
theorem follow_symbol (s : Scanner) {symbol : Symbol} (single : Symbol.single? c = some symbol)
    (slash : c ≠ '/') : s.follow c =
      match symbol.withEqual? with
      | some double =>
        (s.nextIf '=').2.give (.symbol (if (s.nextIf '=').1 then double else symbol))
      | none => s.give (.symbol symbol) := by
  rw [follow, single]
  exact if_neg slash

/-- A comment is passed over up to the end of its line. -/
theorem takes_comment : Takes before line '/' ('/' :: rest) := by
  have turn : (behind before ['/'] ('/' :: rest) line).follow '/' =
      some (.ok none, (behind before ['/', '/'] rest line).skipWhile (· ≠ '\n')) := by
    rw [follow_slash, nextIf_behind_cons]
    rfl
  rw [Takes, firstPiece_comment, turn, skipWhile_behind,
    List.count_eq_zero.2 (not_mem_comment rest)]
  rfl

/-- A slash that begins no comment is a symbol like others. -/
theorem takes_symbol (comment : ¬ (c = '/' ∧ rest.head? = some '/')) {symbol : Symbol}
    (single : Symbol.single? c = some symbol) : Takes before line c rest := by
  have newline : '\n' ≠ c := by rintro rfl; cases single
  by_cases slash : c = '/'
  · subst slash
    cases single
    have first : (firstPiece '/' rest).1 = _ := firstPiece_single rfl comment (.inl rfl)
    refine .of_token _ first rfl (by decide) ?_
    rw [follow_slash, nextIf_behind before ['/'] rest line fun next => comment ⟨rfl, next⟩]
    rfl
  · by_cases alone : symbol.withEqual? = none ∨ rest.head? ≠ some '='
    · refine .of_token _ (firstPiece_single single comment alone) rfl (by simpa using newline) ?_
      rw [follow_symbol _ single slash]
      split
      · rename_i double h
        have next : rest.head? ≠ some '=' := alone.resolve_left (by simp [h])
        rw [nextIf_behind before [c] rest line next]
        rfl
      · rfl
    · rw [not_or, not_not] at alone
      obtain ⟨double, h⟩ := Option.ne_none_iff_exists'.1 alone.1
      obtain ⟨after, rfl⟩ := List.head?_eq_some_iff.1 alone.2
      refine .of_token _ (firstPiece_double single h after) rfl (by simpa using newline) ?_
      rw [follow_symbol _ single slash, h]
      dsimp only
      rw [nextIf_behind_cons]
      rfl

/-- Any other character is reported. -/
theorem takes_other (other : IsOther c) : Takes before line c rest := by
  have blank := other.blank
  simp only [IsBlank, ← or_assoc] at blank
  rw [not_or, or_assoc] at blank
  rw [Takes, firstPiece_other other, follow, other.single]
  dsimp only
  rw [if_neg blank.1, if_neg blank.2, if_neg other.quote, if_neg other.digit, if_neg other.start,
    outcome, List.count_eq_zero.2 (by simpa using Ne.symm blank.2)]
  rfl

end Take

/-- What goes with a character is the rest of the first piece. -/
theorem takes (before : List Char) (line : Nat) (c : Char) (rest : List Char) :
    Takes before line c rest := by
  induction c, rest using firstPiece_cases with
  | blank c rest blank => exact takes_blank before line rest blank
  | quote rest => exact takes_quote before line rest
  | digit c rest digit => exact takes_digit before line rest digit
  | name c rest start => exact takes_name before line rest start
  | comment rest => exact takes_comment before line rest
  | symbol c rest symbol comment single => exact takes_symbol before line rest comment single
  | other c rest other => exact takes_other before line rest other

/-- **A turn takes the first piece of what is left**, and no slice and no numeral ever fails. -/
theorem scanToken_eq (before : List Char) (line : Nat) (c : Char) (rest : List Char) :
    (behind before [] (c :: rest) line).scanToken = some (outcome line (firstPiece c rest).1,
      behind before (firstPiece c rest).1.text (firstPiece c rest).2
        (line + (firstPiece c rest).1.text.count '\n')) := by
  refine Eq.trans ?_ (takes before line c rest)
  exact congrArg (follow · c) (behind_cons before [] line c rest)

/-! ## 4. A run takes the pieces

By induction on the text that is left, in steps of one piece. -/

/-- A fault of a program text, as it is reported. -/
def Report.of (error : ScanError) : Report :=
  ⟨error.line, match error.cause with
    | .unexpectedCharacter => .unexpectedCharacter
    | .unterminatedString => .unterminatedString⟩

/-- Every turn sets the offset of its token. -/
theorem scanAll_start (turns : Nat) (s : Scanner) (start : Nat) :
    scanAll turns { s with start := start } = scanAll turns s := by
  obtain ⟨source, iter, first, line⟩ := s
  cases iter <;> cases turns <;> rfl

/-- The next token begins where the last one ends. -/
theorem scanAll_behind (turns : Nat) (before text after : List Char) (line : Nat) :
    scanAll turns (behind before text after line) =
      scanAll turns (behind (before ++ text) [] after line) := by
  rw [← scanAll_start turns (behind before text after line) (utf8Length (before ++ text))]
  simp [behind, utf8Length, utf8Length_append]

/-- A turn, and the turns behind it. -/
theorem scanAll_succ (turns : Nat) (before : List Char) (line : Nat) (c : Char)
    (rest : List Char) : scanAll (turns + 1) (behind before [] (c :: rest) line) = (do
      let (found, after) ← (behind before [] (c :: rest) line).scanToken
      let (tokens, reports, line) ← scanAll turns after
      match found with
      | .ok (some token) => return (token :: tokens, reports, line)
      | .ok none => return (tokens, reports, line)
      | .error report => return (tokens, report :: reports, line)) := rfl

/-- As many turns as there are characters give the tokens, the faults and the last line that the
pieces give. -/
theorem scanAll_eq (before text : List Char) (line : Nat) {turns : Nat}
    (enough : text.length ≤ turns) : scanAll turns (behind before [] text line) =
      some ((Scanned.ofPieces line (pieces text)).tokens,
        (Scanned.ofPieces line (pieces text)).errors.map Report.of,
        (Scanned.ofPieces line (pieces text)).lastLine) := by
  fun_induction pieces text generalizing before line turns with
  | case1 => cases turns <;> rfl
  | case2 c rest ih =>
    cases turns with
    | zero => cases enough
    | succ turns =>
      have shorter := firstPiece_length_lt c rest
      rw [scanAll_succ, scanToken_eq, Option.bind_eq_bind, Option.bind_some]
      dsimp only
      rw [scanAll_behind, ih _ _ (Nat.le_of_lt_succ (shorter.trans_le enough)),
        Option.bind_eq_bind, Option.bind_some]
      simp only [outcome, Scanned.ofPieces]
      cases (firstPiece c rest).1.kind <;> rfl

/-- **As many turns as there are characters are enough**, and give what `scan` gives. -/
theorem run_eq (source : String) {turns : Nat} (enough : source.toList.length ≤ turns) :
    run turns source = some ((scan source).mapError (List.map Report.of)) := by
  have all := scanAll_eq [] source.toList 1 enough
  change (scanAll turns (behind [] [] source.toList 1)).bind _ = _
  rw [all, Option.bind_some, scan]
  dsimp only
  cases (Scanned.ofPieces 1 (pieces source.toList)).errors <;> rfl

/-- Only stray characters and unclosed strings are ever reported. -/
theorem Report.of_fault (error : ScanError) :
    (Report.of error).fault ≠ .failedToAdvance ∧ (Report.of error).fault ≠ .invalidNumber := by
  obtain ⟨line, cause⟩ := error
  cases cause <;> exact ⟨nofun, nofun⟩

end Scanner

/-! ## 5. The reports

What is reported is read off the text, by a division of it into zones that the scanner has no part
in. -/

/-- There are no faults just if there are no stray characters and no open quote. -/
theorem FaultsAt.eq_nil_iff {zone : Zone} {line : Nat} {text : List Char} {strays : List Nat}
    {unclosed : Option Nat} {faults : List ScanError}
    (h : FaultsAt zone line text strays unclosed faults) :
    faults = [] ↔ strays = [] ∧ unclosed = none := by
  rw [h.faults]
  cases unclosed <;> simp

/-- **Scanning ends, and reports exactly the faults of the text**: one at each stray character, in
order, and then one at the quote of an unclosed string, which takes all that is left.  A text
without a fault is accepted.  The scanner that goes by offsets does the same; its slices never fail,
and it reports nothing else. -/
theorem scan_reports_exactly_the_faults (source : String) :
    ∃ strays unclosed faults,
      FaultsAt .code 1 source.toList strays unclosed faults ∧
      (∀ place ∈ unclosed, ∀ more,
        Zone.code.reach source.toList (place + 1 + more) = .string) ∧
      ((∃ stream, scan source = .ok stream) ↔ strays = [] ∧ unclosed = none) ∧
      (∀ reported, scan source = .error reported ↔ reported = faults ∧ faults ≠ []) ∧
      ∀ turns, source.toList.length ≤ turns →
        Scanner.run turns source = some ((scan source).mapError (List.map Scanner.Report.of)) ∧
        ∀ reports, Scanner.run turns source = some (.error reports) →
          ∀ report ∈ reports,
            report.fault ≠ .failedToAdvance ∧ report.fault ≠ .invalidNumber := by
  obtain ⟨strays, unclosed, places⟩ := faultsAt_faults .code 1 source.toList
  have found := errors_ofPieces 1 source.toList
  generalize Zone.code.faults 1 source.toList = faults at places found
  have result : scan source = if faults = [] then
      .ok ⟨(Scanned.ofPieces 1 (pieces source.toList)).tokens,
        (Scanned.ofPieces 1 (pieces source.toList)).lastLine⟩
      else .error faults := by
    rw [scan, found]
    cases faults <;> rfl
  refine ⟨strays, unclosed, faults, places, fun place here more => ?_, ?_, fun reported => ?_,
    fun turns enough => ⟨Scanner.run_eq source enough, fun reports run report mem => ?_⟩⟩
  · exact ((places.quote place).1 here).reach more
  · rw [result, ← places.eq_nil_iff]
    split <;> simp [*]
  · rw [result]
    split <;> simp [*, eq_comm]
  · rw [Scanner.run_eq source enough, result] at run
    split at run
    · cases run
    · cases run
      obtain ⟨error, -, rfl⟩ := List.mem_map.1 mem
      exact Scanner.Report.of_fault error

end Lox
