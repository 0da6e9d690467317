/-
# Tokens one behind the other

No lexeme goes on behind a blank but a string, and a string is over at its second quote.  So in
front of a blank a lexeme is a piece (`Lexeme.firstPiece_of_stop`), whatever stood behind it in the
text that it comes from.  Where the lexemes of a text are written down again with a blank in
between, the same tokens are scanned (`scan_spaced`); only their lines are those of the new text.
-/
import Mathlib
import Lox.Proofs.Syntax.Reading
import Lox.Proofs.Token.Segment

namespace Lox

/-! ## 1. In front of a blank

Only strings may contain blanks, so a blank ends every other lexeme. -/

/-- A text that is over, or goes on with a blank. -/
def StopsHere : List Char → Prop
  | [] => True
  | c :: _ => IsBlank c

theorem not_isNameRest_of_isBlank {c : Char} (blank : IsBlank c) : isNameRest c = false := by
  rcases blank with rfl | rfl | rfl | rfl <;> rfl

theorem not_isDigit_of_isBlank {c : Char} (blank : IsBlank c) : c.isDigit = false := by
  rcases blank with rfl | rfl | rfl | rfl <;> rfl

theorem isNameRest_of_isNameStart {c : Char} (start : isNameStart c = true) :
    isNameRest c = true := by
  simp only [isNameStart, isNameRest, Bool.or_eq_true, Char.isAlphanum] at start ⊢
  exact start.imp_left .inl

/-- A word consists of characters that can stand in a name. -/
theorem IsWord.isNameRest {text : List Char} (word : IsWord text) :
    ∀ c ∈ text, isNameRest c = true := by
  obtain ⟨start, others⟩ := word
  intro c mem
  rcases List.mem_cons.1 mem with rfl | mem
  · exact isNameRest_of_isNameStart start
  · exact others c mem

/-- There is no blank in a word. -/
theorem IsWord.not_blank {text : List Char} (word : IsWord text) : ∀ c ∈ text, ¬ IsBlank c := by
  intro c mem blank
  have rest := word.isNameRest c mem
  rw [not_isNameRest_of_isBlank blank] at rest
  cases rest

theorem IsDigits.not_blank {text : List Char} (digits : IsDigits text) :
    ∀ c ∈ text, ¬ IsBlank c := by
  intro c mem blank
  have digit := digits.2 c mem
  rw [not_isDigit_of_isBlank blank] at digit
  cases digit

/-- There is none in a number. -/
theorem IsNumeral.not_blank {text : List Char} (numeral : IsNumeral text) :
    ∀ c ∈ text, ¬ IsBlank c := by
  cases numeral with
  | whole h => exact h.not_blank
  | decimal h h' =>
    intro c mem
    rcases List.mem_append.1 mem with mem | mem
    · exact h.not_blank c mem
    · rcases List.mem_cons.1 mem with rfl | mem
      · decide
      · exact h'.not_blank c mem

/-- There is none in a symbol. -/
theorem Symbol.not_blank (symbol : Symbol) : ∀ c ∈ symbol.text.toList, ¬ IsBlank c := by
  intro c mem
  rcases symbol.text_cases with ⟨d, single, text⟩ | ⟨d, one, single, -, text⟩
  all_goals
    have first : ¬ IsBlank d := by rintro (rfl | rfl | rfl | rfl) <;> cases single
    rw [text] at mem
  · rwa [List.mem_singleton.1 mem]
  · rcases List.mem_cons.1 mem with rfl | mem
    · exact first
    · rw [List.mem_singleton.1 mem]
      decide

/-- There are blanks in strings only. -/
theorem Lexeme.not_blank {c : Char} {p : List Char} {kind : Kind} (h : Lexeme (c :: p) kind)
    (other : c ≠ '"') : ∀ d ∈ c :: p, ¬ IsBlank d := by
  generalize spelt : c :: p = text at h
  cases h with
  | symbol symbol => exact symbol.not_blank
  | keyword keyword => exact keyword.isWord.not_blank
  | identifier word free => exact word.not_blank
  | string closed => exact absurd (List.cons.inj spelt).1 other
  | number numeral read => exact numeral.not_blank

/-- What begins with a quote is a string, and ends with the next quote. -/
theorem Lexeme.of_quote {p : List Char} {kind : Kind} (h : Lexeme ('"' :: p) kind) :
    ∃ contents, '"' ∉ contents ∧ p = contents ++ ['"'] := by
  obtain ⟨kind', more, piece, -⟩ := h.firstPiece [] (by rintro ⟨⟨⟩, -⟩)
  rw [List.append_nil] at piece
  rcases firstPiece_quote p with ⟨-, unclosed⟩ | ⟨contents, after, closed, text, string⟩
  · rw [unclosed] at piece
    cases piece
  · rw [string] at piece
    have same : contents ++ ['"'] = p ++ more := (List.cons.inj (congrArg Piece.text piece)).2
    rw [text, List.append_assoc, List.append_cancel_left_eq] at same
    have nothing : after = [] := (List.append_eq_nil_iff.1 (List.cons.inj same).2.symm).1
    exact ⟨contents, closed, nothing ▸ text⟩

/-- No lexeme goes on behind a lexeme with a blank. -/
theorem Lexeme.not_append_blank {text more : List Char} {kind kind' : Kind} {blank : Char}
    (h : Lexeme text kind) (isBlank : IsBlank blank) :
    ¬ Lexeme (text ++ blank :: more) kind' := by
  intro longer
  obtain ⟨c, p, rfl, -⟩ := h.exists_cons
  by_cases quote : c = '"'
  · subst quote
    obtain ⟨short, -, rfl⟩ := h.of_quote
    rw [List.cons_append] at longer
    obtain ⟨contents, closed, text⟩ := longer.of_quote
    have whole : short ++ ['"'] <+: contents ++ ['"'] := ⟨blank :: more, text⟩
    have inside : short ++ ['"'] <+: contents := by
      refine List.prefix_of_prefix_length_le whole ⟨['"'], rfl⟩ ?_
      have length := congrArg List.length text
      simp only [List.length_append, List.length_cons, List.length_nil] at length ⊢
      omega
    exact closed (inside.subset (by simp))
  · exact longer.not_blank quote blank (by simp) isBlank

/-- **In front of a blank, or at the end, a lexeme is the first piece.** -/
theorem Lexeme.firstPiece_of_stop {c : Char} {p rest : List Char} {kind : Kind}
    (h : Lexeme (c :: p) kind) (stops : StopsHere rest) :
    Lox.firstPiece c (p ++ rest) = (⟨.token kind, c :: p⟩, rest) := by
  have noComment : ¬ (c = '/' ∧ (p ++ rest).head? = some '/') := by
    obtain ⟨_, _, spelt, fine⟩ := h.exists_cons
    cases spelt
    rintro ⟨slash, next⟩
    cases p with
    | cons d p => exact fine ⟨slash, next⟩
    | nil =>
      cases rest with
      | nil => cases next
      | cons d rest =>
        cases next
        exact absurd stops (show ¬ IsBlank '/' by decide)
  have whole := firstPiece_append c (p ++ rest)
  obtain ⟨kind', more, piece, same⟩ := h.firstPiece rest noComment
  have behind : more ++ (Lox.firstPiece c (p ++ rest)).2 = rest := by
    rw [piece, ← List.cons_append, List.append_assoc] at whole
    exact List.append_cancel_left whole
  have nothing : more = [] := by
    cases more with
    | nil => rfl
    | cons d more =>
      rw [← behind] at stops
      have token := lexeme_firstPiece (congrArg Piece.kind piece)
      rw [piece] at token
      exact absurd token (h.not_append_blank stops)
  subst nothing
  rw [List.append_nil, same rfl] at piece
  exact Prod.ext piece behind

/-! ## 2. Texts with a blank in between

The pieces of the new text are the lexemes, with gaps in between. -/

/-- Texts one behind the other, with a character in between. -/
def spaced (sep : Char) (texts : List String) : String :=
  String.intercalate (String.singleton sep) texts

/-- What comes behind the first of several texts. -/
def behind (sep : Char) (texts : List String) : List Char :=
  texts.flatMap fun text => sep :: text.toList

/-- The first text, and the others with a blank in front of each. -/
theorem toList_spaced_cons (sep : Char) (text : String) (texts : List String) :
    (spaced sep (text :: texts)).toList = text.toList ++ behind sep texts := by
  rw [spaced, behind]
  induction texts generalizing text with
  | nil => simp
  | cons next texts ih => 
    rw [String.intercalate_cons_cons]
    simp [ih]

/-- Behind a text there is a blank or nothing. -/
theorem stopsHere_behind {sep : Char} (blank : IsBlank sep) (texts : List String) :
    StopsHere (behind sep texts) := by
  cases texts with
  | nil => trivial
  | cons text texts => exact blank

/-- A lexeme in front of a blank is a piece by itself. -/
theorem pieces_lexeme {text rest : List Char} {kind : Kind} (h : Lexeme text kind)
    (stops : StopsHere rest) : pieces (text ++ rest) = ⟨.token kind, text⟩ :: pieces rest := by
  obtain ⟨c, p, rfl, -⟩ := h.exists_cons
  rw [List.cons_append, pieces, h.firstPiece_of_stop stops]

/-- A blank is a gap by itself. -/
theorem pieces_blank {c : Char} (blank : IsBlank c) (rest : List Char) :
    pieces (c :: rest) = ⟨.gap, [c]⟩ :: pieces rest := by
  rw [pieces, firstPiece_blank blank]

/-- The pieces behind the first of several tokens.  The end of a text may be among the texts, as a
last one of no characters. -/
theorem pieces_behind {sep : Char} (blank : IsBlank sep) {tokens : List Token}
    (lexemes : ∀ token ∈ tokens, Lexeme token.lexeme.toList token.kind) {ending : List String}
    (last : ending = [] ∨ ending = [""]) :
    pieces (behind sep (tokens.map Token.lexeme ++ ending)) =
      tokens.flatMap (fun token => [⟨.gap, [sep]⟩, ⟨.token token.kind, token.lexeme.toList⟩]) ++
        ending.map fun _ => ⟨.gap, [sep]⟩ := by
  induction tokens with
  | nil =>
    rcases last with rfl | rfl
    · rw [behind, List.map_nil, List.append_nil, List.flatMap_nil, pieces]
      rfl
    · simp [behind, pieces_blank blank, pieces]
  | cons token tokens ih =>
    have text : behind sep ((token :: tokens).map Token.lexeme ++ ending) =
        sep :: (token.lexeme.toList ++ behind sep (tokens.map Token.lexeme ++ ending)) := rfl
    rw [text, pieces_blank blank,
      pieces_lexeme (lexemes token List.mem_cons_self) (stopsHere_behind blank _),
      ih fun other mem => lexemes other (List.mem_cons_of_mem _ mem)]
    rfl

/-! ## 3. Lines

A blank may be a newline, and strings may contain newlines.  Both count for the tokens behind. -/

/-- Tokens that are the same but for their lines. -/
def Token.Relined (token token' : Token) : Prop :=
  token.kind = token'.kind ∧ token.lexeme = token'.lexeme

/-- The newlines behind the first of several texts. -/
def newlinesBehind (sep : Char) (texts : List String) : Nat := (behind sep texts).count '\n'

/-- The newlines of a text and of the blank in front of it. -/
theorem newlinesBehind_cons (sep : Char) (text : String) (texts : List String) :
    newlinesBehind sep (text :: texts) =
      [sep].count '\n' + text.toList.count '\n' + newlinesBehind sep texts := by
  unfold newlinesBehind behind
  rw [List.flatMap_cons, List.count_append, List.count_cons, List.count_singleton]
  omega

/-- Tokens are the same as others but for their lines: each has the line on which its text ends, if
the texts stand behind a text that ends on a line. -/
def Token.StandAlong (sep : Char) (line : Nat) (tokens tokens' : List Token) : Prop :=
  List.Forall₂ Token.Relined tokens tokens' ∧
    ∀ i token', tokens'[i]? = some token' →
      token'.line = line + newlinesBehind sep ((tokens.take (i + 1)).map Token.lexeme)

/-- The line of a token is set by the newlines in front of it. -/
theorem Token.StandAlong.cons {sep : Char} {line : Nat} {token : Token}
    {tokens tokens' : List Token}
    (h : Token.StandAlong sep (line + newlinesBehind sep [token.lexeme]) tokens tokens') :
    Token.StandAlong sep line (token :: tokens)
      ({ token with line := line + newlinesBehind sep [token.lexeme] } :: tokens') := by
  refine ⟨.cons ⟨rfl, rfl⟩ h.1, fun i token' found => ?_⟩
  cases i with
  | zero =>
    cases found
    rfl
  | succ i =>
    rw [h.2 i token' found, List.take_succ_cons, List.map_cons, newlinesBehind_cons,
      newlinesBehind_cons]
    simp [newlinesBehind, behind, Nat.add_assoc]

/-- What is found behind the first of several tokens. -/
theorem ofPieces_behind (sep : Char) (line : Nat) (tokens : List Token) {ending : List String}
    (last : ending = [] ∨ ending = [""]) :
    ∃ tokens', Scanned.ofPieces line (tokens.flatMap (fun token =>
        [⟨.gap, [sep]⟩, ⟨.token token.kind, token.lexeme.toList⟩]) ++
          ending.map fun _ => ⟨.gap, [sep]⟩) =
        ⟨tokens', [], line + newlinesBehind sep (tokens.map Token.lexeme ++ ending)⟩ ∧
      Token.StandAlong sep line tokens tokens' := by
  induction tokens generalizing line with
  | nil =>
    refine ⟨[], ?_, .nil, fun i token' found => nomatch found⟩
    rcases last with rfl | rfl <;> simp [Scanned.ofPieces, newlinesBehind, behind]
  | cons token tokens ih =>
    obtain ⟨tokens', found, along⟩ := ih (line + newlinesBehind sep [token.lexeme])
    have next : line + newlinesBehind sep [token.lexeme] =
        line + [sep].count '\n' + token.lexeme.toList.count '\n' := by
      rw [newlinesBehind_cons, ← Nat.add_assoc, ← Nat.add_assoc]
      rfl
    refine ⟨_, ?_, along.cons⟩
    rw [List.flatMap_cons, List.append_assoc, List.cons_append, List.singleton_append]
    simp only [Scanned.ofPieces]
    rw [next] at found ⊢
    rw [found, String.ofList_toList, List.map_cons, List.cons_append, newlinesBehind_cons,
      ← Nat.add_assoc, ← Nat.add_assoc]

/-- A text without faults has the tokens of its pieces. -/
theorem scan_of_ofPieces {source : String} {tokens : List Token} {lastLine : Nat}
    (found : Scanned.ofPieces 1 (pieces source.toList) = ⟨tokens, [], lastLine⟩) :
    scan source = .ok ⟨tokens, lastLine⟩ := by
  rw [scan, found]
  rfl

/-- The newlines of the whole are those of its parts. -/
theorem newlines_spaced (sep : Char) (text : String) (texts : List String) :
    newlines (spaced sep (text :: texts)) = newlines text + newlinesBehind sep texts := by
  rw [newlines, toList_spaced_cons, List.count_append]
  rfl

/-- **Scanning is stable under respacing.**  If the lexemes of a text are written down again with
one blank in between, then the same tokens are scanned, each with its kind, its value and its
lexeme.  The line of a token is that on which the new text ends if it is cut off behind the token.
The end of the text may be written too, as a last token of no characters. -/
theorem scan_spaced {source : String} {stream : TokenStream} (scanned : scan source = .ok stream)
    {sep : Char} (blank : IsBlank sep) {ending : List String}
    (last : ending = [] ∨ ending = [""]) :
    ∃ stream', scan (spaced sep (stream.tokens.map Token.lexeme ++ ending)) = .ok stream' ∧
      List.Forall₂ Token.Relined stream.tokens stream'.tokens ∧
      (∀ i token', stream'.tokens[i]? = some token' →
        token'.line = 1 + newlines (spaced sep ((stream.tokens.take (i + 1)).map Token.lexeme))) ∧
      stream'.lastLine =
        1 + newlines (spaced sep (stream.tokens.map Token.lexeme ++ ending)) := by
  have lexemes : ∀ token ∈ stream.tokens, Lexeme token.lexeme.toList token.kind :=
    forall_tokens_of_scan (P := fun kind lexeme => Lexeme lexeme.toList kind)
      (fun c rest kind token => by
        rw [String.toList_ofList]
        exact lexeme_firstPiece token) scanned
  generalize stream.tokens = tokens at lexemes
  cases tokens with
  | nil =>
    refine ⟨⟨[], 1⟩, ?_, .nil, fun i token' found => absurd found (by simp), ?_⟩
    · rcases last with rfl | rfl <;> simp [scan, spaced, pieces, Scanned.ofPieces]
    · rcases last with rfl | rfl <;> simp [spaced, newlines]
  | cons token tokens =>
    have text := toList_spaced_cons sep token.lexeme (tokens.map Token.lexeme ++ ending)
    obtain ⟨tokens', found, same, lines⟩ :=
      ofPieces_behind sep (1 + newlines token.lexeme) tokens last
    refine ⟨⟨{ token with line := 1 + newlines token.lexeme } :: tokens',
      1 + newlines token.lexeme + newlinesBehind sep (tokens.map Token.lexeme ++ ending)⟩, ?_,
      .cons ⟨rfl, rfl⟩ same, fun i token' found => ?_, ?_⟩
    · refine scan_of_ofPieces ?_
      rw [List.map_cons, List.cons_append, text,
        pieces_lexeme (lexemes token List.mem_cons_self) (stopsHere_behind blank _),
        pieces_behind blank (fun other mem => lexemes other (List.mem_cons_of_mem _ mem)) last]
      simp only [Scanned.ofPieces, newlines] at found ⊢
      rw [found, String.ofList_toList]
    · rw [List.take_succ_cons, List.map_cons, newlines_spaced, ← Nat.add_assoc]
      cases i with
      | zero =>
        cases found
        rfl
      | succ i => exact lines i token' found
    · rw [List.map_cons, List.cons_append, newlines_spaced, ← Nat.add_assoc]

/-- Two slashes on two lines, and a string and a symbol with nothing in between. -/
theorem slashes_stay_apart :
    ∃ stream, scan "/\n/\"a b\"!==" = .ok stream ∧
      ∃ stream', scan (spaced ' ' (stream.tokens.map Token.lexeme ++ [""])) = .ok stream' ∧
        List.Forall₂ Token.Relined stream.tokens stream'.tokens := by
  obtain ⟨stream, scanned⟩ : ∃ stream, scan "/\n/\"a b\"!==" = .ok stream := ⟨_, by cbv⟩
  obtain ⟨stream', respaced, same, -⟩ :=
    scan_spaced scanned (.inl rfl : IsBlank ' ') (.inr rfl : [""] = [] ∨ [""] = [""])
  exact ⟨_, scanned, stream', respaced, same⟩

end Lox
