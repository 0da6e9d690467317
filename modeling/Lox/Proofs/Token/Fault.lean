/-
# The faults of a program text

Every character of a text stands in code, in a string or in a comment (`Zone`), which depends on
what is in front of it and, at the beginning and the end of comments, on the next character.  In
code there are two kinds of faults: a character with which no token begins (`IsStray`), and the
quote of a string that is never closed (`IsUnclosed`).

`Zone.faults` finds the faults character by character.  They are those of the pieces of the text
(`errors_ofPieces`), and stand at the stray characters, in their order, and then at the quote of an
unclosed string (`faultsAt_faults`).
-/
import Lox.Proofs.Token.Segment

namespace Lox

/-! ## 1. Places in a text

The zone of a character is defined by what is in front of it, without any tokens. -/

/-- What a character of a program text is part of.  Quotes that open a string, and the first slash
of a comment, are part of the code. -/
inductive Zone where
  | code | string | comment
  deriving DecidableEq

/-- The zone of what comes behind a character `c`: a comment ends in front of a newline. -/
def Zone.next (c : Char) (rest : List Char) : Zone → Zone
  | code => if c = '"' then string else if c = '/' ∧ rest.head? = some '/' then comment else code
  | string => if c = '"' then code else string
  | comment => if rest.head? = some '\n' then code else comment

/-- The zone of the character at a place in a text that begins in a zone. -/
def Zone.reach (zone : Zone) : List Char → (place : Nat) → Zone
  | c :: rest, place + 1 => (zone.next c rest).reach rest place
  | _, _ => zone

/-- Some token begins with a character. -/
def BeginsToken (c : Char) : Prop := ∃ rest kind, Lexeme (c :: rest) kind

/-- At a place in the code there is a character that is not blank and with which no token begins. -/
def IsStray (zone : Zone) (text : List Char) (place : Nat) : Prop :=
  zone.reach text place = .code ∧
    ∃ c, text[place]? = some c ∧ ¬ IsBlank c ∧ ¬ BeginsToken c

/-- At a place in the code there is a quote, and behind it none. -/
def IsUnclosed (zone : Zone) (text : List Char) (place : Nat) : Prop :=
  zone.reach text place = .code ∧ text[place]? = some '"' ∧ '"' ∉ text.drop (place + 1)

/-- Faults are those of a text, if it begins in a zone and on a line: one at each stray character,
in order, and behind them one at the quote of an unclosed string. -/
structure FaultsAt (zone : Zone) (line : Nat) (text : List Char) (strays : List Nat)
    (unclosed : Option Nat) (faults : List ScanError) : Prop where
  sorted : strays.Pairwise (· < ·)
  stray : ∀ place, place ∈ strays ↔ IsStray zone text place
  quote : ∀ place, unclosed = some place ↔ IsUnclosed zone text place
  last : ∀ place ∈ unclosed, ∀ stray ∈ strays, stray < place
  faults : faults =
    strays.map (fun place => ⟨line + (text.take place).count '\n', .unexpectedCharacter⟩) ++
      unclosed.toList.map fun place => ⟨line + (text.take place).count '\n', .unterminatedString⟩

/-! ## 2. The first characters of tokens

Whether a token begins with a character can be decided. -/

/-- `BeginsToken`, decided. -/
def beginsToken (c : Char) : Bool :=
  c = '"' || c.isDigit || isNameStart c || (Symbol.single? c).isSome

/-- The decision looks through all kinds of first characters. -/
theorem beginsToken_iff {c : Char} : beginsToken c = true ↔ BeginsToken c := by
  simp only [beginsToken, Bool.or_eq_true, decide_eq_true_eq]
  constructor
  · rintro (((rfl | digit) | start) | single)
    · exact ⟨_, _, @Lexeme.string [] List.not_mem_nil⟩
    · have digits : IsDigits [c] := ⟨List.cons_ne_nil _ _, by simpa using digit⟩
      exact ⟨_, _, .number (.whole digits) (readNumeral?_whole digits)⟩
    · exact ⟨_, _, lexeme_wordKind ⟨start, fun d h => absurd h List.not_mem_nil⟩⟩
    · obtain ⟨symbol, h⟩ := Option.isSome_iff_exists.1 single
      have lexeme := Lexeme.symbol symbol
      rw [Symbol.text_of_single? h, String.toList_ofList] at lexeme
      exact ⟨_, _, lexeme⟩
  · rintro ⟨p, kind, h⟩
    obtain ⟨d, q, same, noComment⟩ := h.exists_cons
    obtain ⟨rfl, rfl⟩ := List.cons.inj same
    rw [← List.append_nil p] at noComment
    obtain ⟨kind', more, piece, -⟩ := h.firstPiece [] noComment
    by_contra none
    simp only [not_or] at none
    obtain ⟨⟨⟨quote, digit⟩, start⟩, single⟩ := none
    have free : Symbol.single? c = none := by simpa using single
    rw [firstPiece, if_neg quote, if_neg digit, if_neg start, if_neg noComment, free] at piece
    split at piece <;> cases piece

/-! ## 3. Character by character

The faults of a text are listed with its characters, and those of the pieces piece by piece.  Each
piece has at most one. -/

namespace Zone

/-- The fault at a character that stands in front of some text. -/
def fault? (zone : Zone) (line : Nat) (c : Char) (rest : List Char) : Option ScanError :=
  if zone ≠ .code then none
  else if c = '"' then if '"' ∈ rest then none else some ⟨line, .unterminatedString⟩
  else if IsBlank c ∨ beginsToken c = true then none
  else some ⟨line, .unexpectedCharacter⟩

/-- A character has one of two faults or none. -/
theorem fault?_cases (zone : Zone) (line : Nat) (c : Char) (rest : List Char) :
    zone.fault? line c rest = none ∨
      zone.fault? line c rest = some ⟨line, .unexpectedCharacter⟩ ∨
      zone.fault? line c rest = some ⟨line, .unterminatedString⟩ := by
  unfold fault?
  repeat' split
  all_goals simp

/-- The faults of a text that begins in a zone and on a line. -/
def faults (zone : Zone) (line : Nat) : List Char → List ScanError
  | [] => []
  | c :: rest =>
    (zone.fault? line c rest).toList ++ (zone.next c rest).faults (line + [c].count '\n') rest

/-- The faults of a text are that of its first character and those of the rest. -/
theorem faults_cons (zone : Zone) (line : Nat) (c : Char) (rest : List Char) :
    zone.faults line (c :: rest) = (zone.fault? line c rest).toList ++
      (zone.next c rest).faults (line + [c].count '\n') rest := rfl

/-- There are no faults inside strings and comments. -/
@[simp] theorem fault?_string (line : Nat) (c : Char) (rest : List Char) :
    string.fault? line c rest = none := rfl

@[simp] theorem fault?_comment (line : Nat) (c : Char) (rest : List Char) :
    comment.fault? line c rest = none := rfl

/-- A string is passed over up to its closing quote. -/
theorem faults_string {contents : List Char} (open_ : '"' ∉ contents) (line : Nat)
    (after : List Char) :
    string.faults line (contents ++ '"' :: after) =
      code.faults (line + contents.count '\n') after := by
  induction contents generalizing line with
  | nil => rfl
  | cons c contents ih =>
    obtain ⟨other, open_⟩ := not_or.1 (mt List.mem_cons.2 open_)
    have next : string.next c (contents ++ '"' :: after) = string := if_neg (Ne.symm other)
    rw [List.cons_append, faults_cons, fault?_string, next, ih open_, Nat.add_assoc,
      ← List.count_append]
    rfl

/-- A string without a closing quote takes all that is left. -/
theorem faults_string_open {text : List Char} (open_ : '"' ∉ text) (line : Nat) :
    string.faults line text = [] := by
  induction text generalizing line with
  | nil => rfl
  | cons c rest ih =>
    obtain ⟨other, open_⟩ := not_or.1 (mt List.mem_cons.2 open_)
    have next : string.next c rest = string := if_neg (Ne.symm other)
    rw [faults_cons, fault?_string, next, ih open_]
    rfl

/-- A comment is passed over up to the newline. -/
theorem faults_comment {body after : List Char} (nonempty : body ≠ []) (line_ : '\n' ∉ body)
    (ends : ∀ c ∈ after.head?, c = '\n') (line : Nat) :
    comment.faults line (body ++ after) = code.faults line after := by
  induction body generalizing line with
  | nil => exact absurd rfl nonempty
  | cons c body ih =>
    obtain ⟨other, line_⟩ := not_or.1 (mt List.mem_cons.2 line_)
    have flat : line + [c].count '\n' = line := by
      rw [List.count_singleton, beq_eq_false_iff_ne.2 (Ne.symm other)]
      rfl
    rw [List.cons_append, faults_cons, fault?_comment, flat]
    cases body with
    | nil =>
      cases after with
      | nil => rfl
      | cons d after =>
        obtain rfl := ends d rfl
        rfl
    | cons d body =>
      have next : comment.next c (d :: body ++ after) = comment :=
        if_neg fun h => line_ (by cases h; exact List.mem_cons_self)
      rw [next]
      exact ih (List.cons_ne_nil _ _) line_ line

/-- What begins neither a string nor a comment, and is no fault, is passed over. -/
theorem faults_code {text : List Char}
    (plain : ∀ c ∈ text, beginsToken c = true ∧ c ≠ '"' ∧ c ≠ '/') (line : Nat)
    (after : List Char) :
    code.faults line (text ++ after) = code.faults (line + text.count '\n') after := by
  induction text generalizing line with
  | nil => rfl
  | cons c text ih =>
    obtain ⟨⟨begins, quote, slash⟩, plain⟩ := List.forall_mem_cons.1 plain
    have next : code.next c (text ++ after) = code := by
      rw [Zone.next, if_neg quote, if_neg fun h => slash h.1]
    have none : code.fault? line c (text ++ after) = none := by
      rw [fault?, if_neg (not_not.2 rfl), if_neg quote, if_pos (.inr begins)]
    rw [List.cons_append, faults_cons, next, none, ih plain, Nat.add_assoc, ← List.count_append]
    rfl

end Zone

/-- The fault that a piece is. -/
def Piece.fault? (line : Nat) (piece : Piece) : Option ScanError :=
  match piece.kind with
  | .stray => some ⟨line, .unexpectedCharacter⟩
  | .unclosed => some ⟨line, .unterminatedString⟩
  | _ => none

section FirstPiece

variable (line : Nat) (c : Char) (rest : List Char)

/-- The first piece of a text is one of its faults, or none, and the others are behind it. -/
def FirstFault : Prop :=
  Zone.code.faults line (c :: rest) = ((firstPiece c rest).1.fault? line).toList ++
    Zone.code.faults (line + (firstPiece c rest).1.text.count '\n') (firstPiece c rest).2

variable {c}

/-- A blank has no fault. -/
theorem firstFault_blank (blank : IsBlank c) : FirstFault line c rest := by
  have next : Zone.code.next c rest = .code := by
    rcases blank with rfl | rfl | rfl | rfl <;> simp [Zone.next]
  have none : Zone.code.fault? line c rest = none := by
    rw [Zone.fault?, if_neg (not_not.2 rfl), if_neg (by rintro rfl; simp [IsBlank] at blank),
      if_pos (.inl blank)]
  rw [FirstFault, firstPiece_blank blank, Zone.faults_cons, next, none]
  rfl

/-- A quote has a fault if it is never closed. -/
theorem firstFault_quote : FirstFault line '"' rest := by
  rcases firstPiece_quote rest with ⟨open_, piece⟩ | ⟨contents, after, open_, rfl, piece⟩
  · have own : Zone.code.fault? line '"' rest = some ⟨line, .unterminatedString⟩ := by
      rw [Zone.fault?, if_neg (not_not.2 rfl), if_pos rfl, if_neg open_]
    have later : (Zone.code.next '"' rest).faults (line + ['"'].count '\n') rest = [] :=
      Zone.faults_string_open open_ _
    rw [FirstFault, Zone.faults_cons, piece, own, later]
    rfl
  · have own : Zone.code.fault? line '"' (contents ++ '"' :: after) = none := by
      rw [Zone.fault?, if_neg (not_not.2 rfl), if_pos rfl, if_pos (by simp)]
    have later := Zone.faults_string open_ (line + ['"'].count '\n') after
    rw [FirstFault, Zone.faults_cons, piece, own]
    refine later.trans ?_
    simp [List.count_append, Piece.fault?]

/-- A piece of characters with which tokens begin, but no string and no comment. -/
theorem firstFault_plain (token : ∃ kind, (firstPiece c rest).1.kind = .token kind)
    (plain : ∀ d ∈ (firstPiece c rest).1.text, beginsToken d = true ∧ d ≠ '"' ∧ d ≠ '/') :
    FirstFault line c rest := by
  obtain ⟨kind, token⟩ := token
  have none : (firstPiece c rest).1.fault? line = none := by rw [Piece.fault?, token]
  rw [FirstFault, none]
  conv_lhs => rw [← firstPiece_append c rest]
  exact Zone.faults_code plain line _

/-- A number has no fault in it. -/
theorem firstFault_digit (digit : c.isDigit = true) : FirstFault line c rest := by
  have plain : ∀ d : Char, d.isDigit = true → beginsToken d = true ∧ d ≠ '"' ∧ d ≠ '/' :=
    fun d h => ⟨by simp [beginsToken, h], (by rintro rfl; cases h), (by rintro rfl; cases h)⟩
  have whole : ∀ d ∈ c :: rest.takeWhile Char.isDigit, beginsToken d = true ∧ d ≠ '"' ∧ d ≠ '/' :=
    fun d h => plain d ((isDigits_takeWhile digit rest).2 d h)
  by_cases point : IsPoint (rest.dropWhile Char.isDigit)
  · obtain ⟨d, more, found, digit'⟩ := point
    refine firstFault_plain line rest ?_ ?_ <;> rw [firstPiece_decimal digit rest found digit']
    · exact ⟨_, rfl⟩
    · intro e h
      rcases List.mem_append.1 h with h | h
      · exact whole e h
      · rcases List.mem_cons.1 h with rfl | h
        · exact ⟨rfl, by decide, by decide⟩
        · exact plain e (List.mem_takeWhile_imp h)
  · refine firstFault_plain line rest ?_ ?_ <;> rw [firstPiece_whole digit rest point]
    · exact ⟨_, rfl⟩
    · exact whole

/-- A word has no fault in it. -/
theorem firstFault_name (start : isNameStart c = true) : FirstFault line c rest := by
  have plain : ∀ d : Char, isNameRest d = true → beginsToken d = true ∧ d ≠ '"' ∧ d ≠ '/' := by
    intro d h
    refine ⟨?_, (by rintro rfl; cases h), (by rintro rfl; cases h)⟩
    simp only [isNameRest, Char.isAlphanum, Bool.or_eq_true, decide_eq_true_eq] at h
    simp only [beginsToken, isNameStart, Bool.or_eq_true, decide_eq_true_eq]
    rcases h with (letter | digit) | mark
    · exact .inl (.inr (.inl letter))
    · exact .inl (.inl (.inr digit))
    · exact .inl (.inr (.inr mark))
  have first : isNameRest c = true := by
    simp only [isNameStart, isNameRest, Char.isAlphanum, Bool.or_eq_true] at start ⊢
    exact start.imp_left .inl
  refine firstFault_plain line rest ?_ ?_ <;> rw [firstPiece_word start]
  · exact ⟨_, rfl⟩
  · intro d h
    rcases List.mem_cons.1 h with rfl | h
    · exact plain d first
    · exact plain d (List.mem_takeWhile_imp h)

/-- A comment has no fault in it. -/
theorem firstFault_comment : FirstFault line '/' ('/' :: rest) := by
  have flat := not_mem_comment rest
  have ends : ∀ d ∈ (rest.dropWhile (· ≠ '\n')).head?, d = '\n' := by
    intro d head
    have := List.head?_dropWhile_not (fun c => decide (c ≠ '\n')) rest
    rw [head] at this
    simpa using this
  have later := Zone.faults_comment (List.cons_ne_nil _ _) (List.not_mem_of_not_mem_cons flat) ends
    line
  rw [List.cons_append, List.takeWhile_append_dropWhile] at later
  rw [FirstFault, firstPiece_comment, List.count_eq_zero.2 flat]
  exact later

/-- A symbol has no fault in it. -/
theorem firstFault_symbol (comment : ¬ (c = '/' ∧ rest.head? = some '/')) {symbol : Symbol}
    (single : Symbol.single? c = some symbol) : FirstFault line c rest := by
  have begins : beginsToken c = true := by simp [beginsToken, single]
  have quote : c ≠ '"' := by rintro rfl; cases single
  by_cases slash : c = '/'
  · subst slash
    have piece : firstPiece '/' rest = (⟨.token (.symbol .slash), ['/']⟩, rest) := by
      rw [firstPiece, if_neg (by decide), if_neg (by decide), if_neg (by decide),
        if_neg (by decide), if_neg comment]
      rfl
    have next : Zone.code.next '/' rest = .code := by
      rw [Zone.next, if_neg quote, if_neg comment]
    rw [FirstFault, piece, Zone.faults_cons, next]
    rfl
  · by_cases alone : symbol.withEqual? = none ∨ rest.head? ≠ some '='
    · refine firstFault_plain line rest ?_ ?_ <;> rw [firstPiece_single single comment alone]
      · exact ⟨_, rfl⟩
      · simpa using ⟨begins, quote, slash⟩
    · rw [not_or, not_not] at alone
      obtain ⟨double, h⟩ := Option.ne_none_iff_exists'.1 alone.1
      obtain ⟨after, rfl⟩ := List.head?_eq_some_iff.1 alone.2
      refine firstFault_plain line _ ?_ ?_ <;> rw [firstPiece_double single h]
      · exact ⟨_, rfl⟩
      · simpa using ⟨⟨begins, quote, slash⟩, rfl⟩

/-- What begins no token is a fault by itself. -/
theorem firstFault_other (other : IsOther c) : FirstFault line c rest := by
  have none : beginsToken c = false := by
    simp [beginsToken, other.quote, other.digit, other.start, other.single]
  have next : Zone.code.next c rest = .code := by
    rw [Zone.next, if_neg other.quote, if_neg fun h => other.ne_slash h.1]
  have own : Zone.code.fault? line c rest = some ⟨line, .unexpectedCharacter⟩ := by
    rw [Zone.fault?, if_neg (not_not.2 rfl), if_neg other.quote,
      if_neg (by simp [other.blank, none])]
  rw [FirstFault, Zone.faults_cons, next, own, firstPiece_other other]
  rfl

end FirstPiece

/-- **The first piece of a text is its first fault, or none.** -/
theorem firstFault (line : Nat) (c : Char) (rest : List Char) : FirstFault line c rest := by
  induction c, rest using firstPiece_cases with
  | blank c rest blank => exact firstFault_blank line rest blank
  | quote rest => exact firstFault_quote line rest
  | digit c rest digit => exact firstFault_digit line rest digit
  | name c rest start => exact firstFault_name line rest start
  | comment rest => exact firstFault_comment line rest
  | symbol c rest symbol comment single => exact firstFault_symbol line rest comment single
  | other c rest other => exact firstFault_other line rest other

/-- **The faults of a text are those of its pieces.** -/
theorem errors_ofPieces (line : Nat) (text : List Char) :
    (Scanned.ofPieces line (pieces text)).errors = Zone.code.faults line text := by
  fun_induction pieces text generalizing line with
  | case1 => rfl
  | case2 c rest ih =>
    rw [firstFault, ← ih]
    simp only [Scanned.ofPieces, Piece.fault?]
    cases (firstPiece c rest).1.kind <;> rfl

/-! ## 4. The places of the faults

The list is in the order of the text, so the faults can be found again at their places. -/

@[simp] theorem reach_zero (zone : Zone) (text : List Char) : zone.reach text 0 = zone := by
  cases text <;> rfl

theorem reach_succ (zone : Zone) (c : Char) (rest : List Char) (place : Nat) :
    zone.reach (c :: rest) (place + 1) = (zone.next c rest).reach rest place :=
  rfl

/-- Where no quote is, a string goes on. -/
theorem reach_string {text : List Char} (open_ : '"' ∉ text) (place : Nat) :
    Zone.string.reach text place = .string := by
  induction text generalizing place with
  | nil => rfl
  | cons c rest ih =>
    obtain ⟨other, open_⟩ := not_or.1 (mt List.mem_cons.2 open_)
    cases place with
    | zero => rfl
    | succ place =>
      have next : Zone.string.next c rest = .string := if_neg (Ne.symm other)
      rw [reach_succ, next, ih open_]

/-- What comes behind a place only depends on what is there and the zone of the place. -/
theorem reach_add (zone : Zone) (text : List Char) (place more : Nat)
    (inside : place ≤ text.length) :
    zone.reach text (place + more) = (zone.reach text place).reach (text.drop place) more := by
  induction text generalizing zone place with
  | nil => rw [Nat.le_zero.1 inside, Nat.zero_add, reach_zero, List.drop_zero]
  | cons c rest ih =>
    cases place with
    | zero => rw [Nat.zero_add, reach_zero, List.drop_zero]
    | succ place =>
      rw [Nat.succ_add, reach_succ, ih _ _ (Nat.le_of_succ_le_succ inside)]
      rfl

/-- **A string that is never closed takes all that is left.** -/
theorem IsUnclosed.reach {zone : Zone} {text : List Char} {place : Nat}
    (h : IsUnclosed zone text place) (more : Nat) :
    zone.reach text (place + 1 + more) = .string := by
  obtain ⟨code, quote, open_⟩ := h
  obtain ⟨inside, here⟩ := List.getElem?_eq_some_iff.1 quote
  have next : zone.reach text (place + 1) = .string := by
    rw [reach_add zone text place 1 inside.le, code, List.drop_eq_getElem_cons inside, here]
    exact reach_zero _ _
  rw [reach_add zone text (place + 1) more inside, next, reach_string open_]

section Place

variable {zone : Zone} {c : Char} {rest : List Char}

/-- Places behind the first character are places in the rest. -/
theorem isStray_succ {place : Nat} :
    IsStray zone (c :: rest) (place + 1) ↔ IsStray (zone.next c rest) rest place := Iff.rfl

theorem isUnclosed_succ {place : Nat} :
    IsUnclosed zone (c :: rest) (place + 1) ↔ IsUnclosed (zone.next c rest) rest place :=
  Iff.rfl

/-- The first character is stray just if it is reported as such. -/
theorem isStray_zero (line : Nat) : IsStray zone (c :: rest) 0 ↔
    zone.fault? line c rest = some ⟨line, .unexpectedCharacter⟩ := by
  have quote : beginsToken '"' = true := rfl
  have here : IsStray zone (c :: rest) 0 ↔
      zone = .code ∧ ¬ IsBlank c ∧ ¬ beginsToken c = true := by
    simp [IsStray, beginsToken_iff]
  rw [here, Zone.fault?]
  by_cases code : zone = .code
  · by_cases mark : c = '"'
    · subst mark
      by_cases closed : '"' ∈ rest <;> simp [code, quote, closed]
    · by_cases fine : IsBlank c ∨ beginsToken c = true
      · rw [if_neg (not_not.2 code), if_neg mark, if_pos fine]
        exact iff_of_false (fun h => fine.elim h.2.1 h.2.2) nofun
      · rw [if_neg (not_not.2 code), if_neg mark, if_neg fine]
        exact iff_of_true ⟨code, not_or.1 fine⟩ rfl
  · simp [code]

/-- The first character is the quote of an open string just if it is reported as such. -/
theorem isUnclosed_zero (line : Nat) : IsUnclosed zone (c :: rest) 0 ↔
    zone.fault? line c rest = some ⟨line, .unterminatedString⟩ := by
  have here : IsUnclosed zone (c :: rest) 0 ↔ zone = .code ∧ c = '"' ∧ '"' ∉ rest := by
    simp [IsUnclosed]
  rw [here, Zone.fault?]
  by_cases code : zone = .code
  · by_cases mark : c = '"'
    · by_cases closed : '"' ∈ rest <;> simp [code, mark, closed]
    · by_cases fine : IsBlank c ∨ beginsToken c = true <;> simp [code, mark, fine]
  · simp [code]

namespace FaultsAt

variable {line : Nat} {strays : List Nat} {unclosed : Option Nat} {faults : List ScanError}

/-- Every fault of a text is one place further on behind another character. -/
theorem shift
    (h : FaultsAt (zone.next c rest) (line + [c].count '\n') rest strays unclosed faults) :
    (strays.map Nat.succ).Pairwise (· < ·) ∧
    (∀ place, place + 1 ∈ strays.map Nat.succ ↔ IsStray zone (c :: rest) (place + 1)) ∧
    (∀ place,
      unclosed.map Nat.succ = some (place + 1) ↔ IsUnclosed zone (c :: rest) (place + 1)) ∧
    (∀ place ∈ unclosed.map Nat.succ, ∀ stray ∈ strays.map Nat.succ, stray < place) ∧
    faults = (strays.map Nat.succ).map
        (fun place => ⟨line + ((c :: rest).take place).count '\n', .unexpectedCharacter⟩) ++
      (unclosed.map Nat.succ).toList.map
        fun place => ⟨line + ((c :: rest).take place).count '\n', .unterminatedString⟩ := by
  have count : ∀ place, line + ((c :: rest).take (place + 1)).count '\n' =
      line + [c].count '\n' + (rest.take place).count '\n' := by
    intro place
    rw [List.take_succ_cons, ← List.singleton_append, List.count_append, Nat.add_assoc]
  refine ⟨?_, fun place => ?_, fun place => ?_, ?_, ?_⟩
  · exact List.pairwise_map.2 (h.sorted.imp Nat.succ_lt_succ)
  · rw [isStray_succ, ← h.stray]
    simp
  · rw [isUnclosed_succ, ← h.quote]
    simp
  · simp only [Option.mem_def, Option.map_eq_some_iff, List.mem_map]
    rintro _ ⟨place, found, rfl⟩ _ ⟨stray, mem, rfl⟩
    exact Nat.succ_lt_succ (h.last place found stray mem)
  · rw [h.faults]
    cases unclosed <;> simp only [Option.map_none, Option.map_some, Option.toList_none,
      Option.toList_some, List.map_map, List.map_nil, List.map_cons, Function.comp_def,
      Nat.succ_eq_add_one, count]

/-- A character that is no fault. -/
theorem skip
    (h : FaultsAt (zone.next c rest) (line + [c].count '\n') rest strays unclosed faults)
    (none : zone.fault? line c rest = none) :
    FaultsAt zone line (c :: rest) (strays.map Nat.succ) (unclosed.map Nat.succ) faults := by
  obtain ⟨sorted, stray, quote, last, same⟩ := h.shift
  refine ⟨sorted, fun place => ?_, fun place => ?_, last, same⟩
  · cases place with
    | zero => simp [isStray_zero line, none]
    | succ place => exact stray place
  · cases place with
    | zero => simp [isUnclosed_zero line, none]
    | succ place => exact quote place

/-- A stray character. -/
theorem cons
    (h : FaultsAt (zone.next c rest) (line + [c].count '\n') rest strays unclosed faults)
    (own : zone.fault? line c rest = some ⟨line, .unexpectedCharacter⟩) :
    FaultsAt zone line (c :: rest) (0 :: strays.map Nat.succ) (unclosed.map Nat.succ)
      (⟨line, .unexpectedCharacter⟩ :: faults) := by
  obtain ⟨sorted, stray, quote, last, same⟩ := h.shift
  refine ⟨?_, fun place => ?_, fun place => ?_, fun place found => ?_, ?_⟩
  · refine List.pairwise_cons.2 ⟨fun place mem => ?_, sorted⟩
    obtain ⟨before, -, rfl⟩ := List.mem_map.1 mem
    exact Nat.succ_pos before
  · cases place with
    | zero => exact iff_of_true List.mem_cons_self ((isStray_zero line).2 own)
    | succ place =>
      rw [← stray, List.mem_cons]
      exact or_iff_right (Nat.succ_ne_zero place)
  · cases place with
    | zero => simp [isUnclosed_zero line, own]
    | succ place => exact quote place
  · refine List.forall_mem_cons.2 ⟨?_, last place found⟩
    obtain ⟨before, -, rfl⟩ := Option.map_eq_some_iff.1 found
    exact Nat.succ_pos before
  · rw [same]
    rfl

/-- The quote of a string that is never closed, behind which there is no fault. -/
theorem single (own : zone.fault? line c rest = some ⟨line, .unterminatedString⟩) :
    FaultsAt zone line (c :: rest) [] (some 0) [⟨line, .unterminatedString⟩] := by
  obtain ⟨code, here, open_⟩ := (isUnclosed_zero line).2 own
  obtain rfl : zone = .code := code
  obtain rfl : c = '"' := Option.some.inj here
  have inside : ∀ place, Zone.code.reach ('"' :: rest) (place + 1) = .string :=
    reach_string open_
  refine ⟨.nil, fun place => ?_, fun place => ?_, fun place _ stray mem => ?_, by simp⟩
  · refine iff_of_false List.not_mem_nil ?_
    rintro ⟨zone, other, found, -, begins⟩
    cases place with
    | zero =>
      cases found
      exact begins (beginsToken_iff.1 rfl)
    | succ place => cases (inside place).symm.trans zone
  · cases place with
    | zero => exact iff_of_true rfl ((isUnclosed_zero line).2 own)
    | succ place =>
      refine iff_of_false (by simp) ?_
      rintro ⟨zone, -⟩
      cases (inside place).symm.trans zone
  · exact absurd mem List.not_mem_nil

end FaultsAt

end Place

/-- **The faults of a text stand at its stray characters, in their order, and then at the quote of
an unclosed string.** -/
theorem faultsAt_faults (zone : Zone) (line : Nat) (text : List Char) :
    ∃ strays unclosed, FaultsAt zone line text strays unclosed (zone.faults line text) := by
  induction text generalizing zone line with
  | nil =>
    refine ⟨[], none, .nil, fun place => ?_, fun place => ?_, fun place found => ?_, rfl⟩
    · simp [IsStray]
    · simp [IsUnclosed]
    · cases found
  | cons c rest ih =>
    obtain ⟨strays, unclosed, h⟩ := ih (zone.next c rest) (line + [c].count '\n')
    rw [Zone.faults_cons]
    rcases zone.fault?_cases line c rest with none | own | own
    · rw [none]
      exact ⟨_, _, h.skip none⟩
    · rw [own]
      exact ⟨_, _, h.cons own⟩
    · have later : (zone.next c rest).faults (line + [c].count '\n') rest = [] := by
        obtain ⟨code, here, open_⟩ := (isUnclosed_zero line).2 own
        obtain rfl : zone = .code := code
        obtain rfl : c = '"' := Option.some.inj here
        exact Zone.faults_string_open open_ _
      rw [own, later]
      exact ⟨_, _, .single own⟩

end Lox
