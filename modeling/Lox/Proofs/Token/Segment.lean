/-
# How a program text is cut into tokens

The tokens of a text stand in stretches of it (`Span`), one behind the other, with nothing but gaps
in between (`Gap`): blanks, and comments up to the next newline or the end.  `Token.Covers` says
what a token has to do with its stretch, and `Segments` of the tokens behind some place that they
and the gaps make up the rest of the text.

Main statement: `tokens_are_longest_lexemes`.
-/
import Lox.Proofs.Syntax.Joining
import Lox.Proofs.Token.Lexeme

namespace Lox

/-! ## 1. Stretches of a text

A stretch is given by two places, so it can be checked against the text without the scanner. -/

/-- A stretch of a text: the number of its first character, and of the first one behind it. -/
structure Span where
  start : Nat
  stop : Nat

/-- What may stand between tokens, in front of some text: blanks, and comments that go on up to the
next newline or the end. -/
inductive Gap : (gap after : List Char) → Prop
  | nil (after : List Char) : Gap [] after
  | blank {c : Char} {gap after : List Char} (blank : c = ' ' ∨ c = '\r' ∨ c = '\t' ∨ c = '\n')
      (h : Gap gap after) : Gap (c :: gap) after
  | comment {body gap after : List Char} (line : '\n' ∉ body)
      (ends : ∀ c ∈ (gap ++ after).head?, c = '\n') (h : Gap gap after) :
      Gap ('/' :: '/' :: body ++ gap) after

/-- No token stands between two places in a text. -/
structure Between (text : List Char) (stop start : Nat) : Prop where
  le : stop ≤ start
  gap : Gap (text.extract stop start) (text.drop start)

/-- A token has the text, the kind and the line of a stretch, which is the longest lexeme at its
place. -/
structure Token.Covers (text : List Char) (token : Token) (span : Span) : Prop where
  nonempty : span.start < span.stop
  lexeme : text.extract span.start span.stop = token.lexeme.toList
  kind : ∀ kind, Lexeme token.lexeme.toList kind ↔ kind = token.kind
  noComment : ¬ ['/', '/'] <+: text.drop span.start
  longest : ∀ lexeme kind, Lexeme lexeme kind → lexeme <+: text.drop span.start →
    lexeme.length ≤ span.stop - span.start
  line : token.line = 1 + (text.take span.stop).count '\n'

/-- From some place on, a text consists of tokens in their stretches and of gaps. -/
structure Segments (text : List Char) (start : Nat) (tokens : List Token) (spans : List Span) :
    Prop where
  covers : List.Forall₂ (Token.Covers text) tokens spans
  gaps : List.Forall₂ (Between text) (start :: spans.map Span.stop)
    (spans.map Span.start ++ [text.length])

/-- Two stretches of a text, one behind the other. -/
theorem extract_append {α : Type} (text : List α) {a b c : Nat} (ab : a ≤ b) (bc : b ≤ c) :
    text.extract a c = text.extract a b ++ text.extract b c := by
  have split : text.drop b = (text.drop a).drop (b - a) := by
    rw [List.drop_drop, Nat.add_sub_cancel' ab]
  rw [List.extract_eq_take_drop, List.extract_eq_take_drop, List.extract_eq_take_drop, split,
    ← List.take_add]
  congr 1
  omega

/-- A stretch of a text, and what is behind it. -/
theorem extract_append_drop {α : Type} (text : List α) {a b : Nat} (h : a ≤ b) :
    text.extract a b ++ text.drop b = text.drop a := by
  have split : text.drop b = (text.drop a).drop (b - a) := by
    rw [List.drop_drop, Nat.add_sub_cancel' h]
  rw [List.extract_eq_take_drop, split, List.take_append_drop]

/-- There may be nothing in between. -/
theorem Between.refl (text : List Char) (place : Nat) : Between text place place := by
  refine ⟨le_rfl, ?_⟩
  rw [List.extract_eq_take_drop, Nat.sub_self, List.take_zero]
  exact .nil _

namespace Segments

variable {text : List Char} {tokens : List Token} {spans : List Span}

/-- At the end of a text there are no more tokens. -/
theorem nil (text : List Char) : Segments text text.length [] [] :=
  ⟨.nil, .cons (.refl text _) .nil⟩

/-- A token, and the tokens behind it. -/
theorem token {token : Token} {span : Span} (covers : token.Covers text span)
    (h : Segments text span.stop tokens spans) :
    Segments text span.start (token :: tokens) (span :: spans) :=
  ⟨.cons covers h.covers, .cons (.refl text _) h.gaps⟩

/-- A gap, and the tokens behind it. -/
theorem gap {start mid : Nat} (h : Segments text mid tokens spans)
    (between : ∀ stop, Between text mid stop → Between text start stop) :
    Segments text start tokens spans := by
  refine ⟨h.covers, ?_⟩
  have gaps := h.gaps
  cases spans with
  | nil =>
    obtain ⟨first, rest⟩ := List.forall₂_cons.1 gaps
    exact .cons (between _ first) rest
  | cons span spans =>
    obtain ⟨first, rest⟩ := List.forall₂_cons.1 gaps
    exact .cons (between _ first) rest

end Segments

/-! ## 2. Pieces

Each piece is a stretch of its own length, behind what has been scanned before. -/

section Piece

variable (before rest : List Char) (c : Char)

theorem drop_before : (before ++ c :: rest).drop before.length = c :: rest :=
  List.drop_left

/-- The first piece of what is left, as a stretch of the whole. -/
theorem extract_firstPiece : (before ++ c :: rest).extract before.length
    (before.length + (firstPiece c rest).1.text.length) = (firstPiece c rest).1.text := by
  rw [List.extract_eq_take_drop, drop_before, Nat.add_sub_cancel_left]
  conv_lhs => rw [← firstPiece_append c rest]
  exact List.take_left

theorem take_firstPiece :
    (before ++ c :: rest).take (before.length + (firstPiece c rest).1.text.length) =
      before ++ (firstPiece c rest).1.text := by
  rw [← firstPiece_append c rest, ← List.append_assoc, ← List.length_append]
  exact List.take_left

end Piece

/-- No token begins like a comment. -/
theorem no_comment_of_token {c : Char} {rest : List Char} {kind : Kind}
    (token : (firstPiece c rest).1.kind = .token kind) : ¬ (c = '/' ∧ rest.head? = some '/') := by
  rintro ⟨rfl, next⟩
  unfold firstPiece at token
  rw [if_neg (by decide), if_neg (by decide), if_neg (by decide), if_neg (by decide),
    if_pos ⟨rfl, next⟩] at token
  cases token

/-- A piece that is a token is the longest lexeme where it begins. -/
theorem length_le_firstPiece {c : Char} {rest : List Char} {kind : Kind}
    (token : (firstPiece c rest).1.kind = .token kind) {lexeme : List Char} {kind' : Kind}
    (h : Lexeme lexeme kind') (starts : lexeme <+: c :: rest) :
    lexeme.length ≤ (firstPiece c rest).1.text.length := by
  have noComment := no_comment_of_token token
  obtain ⟨d, p, rfl, -⟩ := h.exists_cons
  obtain ⟨after, text⟩ := starts
  obtain ⟨rfl, rfl⟩ := List.cons.inj text
  obtain ⟨kind'', more, piece, -⟩ := h.firstPiece after noComment
  rw [List.append_eq, piece]
  simp

/-- A piece that is a token covers its stretch. -/
theorem covers_firstPiece {before rest : List Char} {c : Char} {kind : Kind}
    (token : (firstPiece c rest).1.kind = .token kind) :
    Token.Covers (before ++ c :: rest)
      ⟨kind, String.ofList (firstPiece c rest).1.text,
        1 + before.count '\n' + (firstPiece c rest).1.text.count '\n'⟩
      ⟨before.length, before.length + (firstPiece c rest).1.text.length⟩ where
  nonempty := Nat.lt_add_of_pos_right (List.length_pos_iff.2 (firstPiece_text_ne_nil c rest))
  lexeme := by rw [extract_firstPiece, String.toList_ofList]
  kind other := by
    rw [String.toList_ofList]
    exact ⟨fun h => h.kind_eq (lexeme_firstPiece token), fun same => same ▸ lexeme_firstPiece token⟩
  noComment := by
    rw [drop_before]
    intro starts
    obtain ⟨after, text⟩ := starts
    cases text
    exact no_comment_of_token token ⟨rfl, rfl⟩
  longest lexeme other h starts := by
    rw [drop_before] at starts
    rw [Nat.add_sub_cancel_left]
    exact length_le_firstPiece token h starts
  line := by rw [take_firstPiece, List.count_append, Nat.add_assoc]

/-- A gap is a blank, or a comment with what follows it. -/
theorem firstPiece_gap {c : Char} {rest : List Char} (gap : (firstPiece c rest).1.kind = .gap) :
    ((c = ' ' ∨ c = '\r' ∨ c = '\t' ∨ c = '\n') ∧ firstPiece c rest = (⟨.gap, [c]⟩, rest)) ∨
      ∃ more, c = '/' ∧ rest = '/' :: more ∧ firstPiece c rest =
        (⟨.gap, '/' :: '/' :: more.takeWhile (· ≠ '\n')⟩, more.dropWhile (· ≠ '\n')) := by
  by_cases blank : c = ' ' ∨ c = '\r' ∨ c = '\t' ∨ c = '\n'
  · exact .inl ⟨blank, by rw [firstPiece, if_pos blank]⟩
  by_cases comment : c = '/' ∧ rest.head? = some '/'
  · obtain ⟨rfl, next⟩ := comment
    obtain ⟨more, rfl⟩ := List.head?_eq_some_iff.1 next
    exact .inr ⟨more, rfl, rfl, by
      rw [firstPiece, if_neg (by decide), if_neg (by decide), if_neg (by decide),
        if_neg (by decide), if_pos ⟨rfl, rfl⟩]
      rfl⟩
  · exfalso
    revert gap
    unfold firstPiece
    rw [if_neg blank, if_neg comment]
    repeat' split
    all_goals rintro ⟨⟩

/-- What is in front of a gap is in front of the piece before it, if that is a gap too. -/
theorem between_firstPiece {before rest : List Char} {c : Char}
    (gap : (firstPiece c rest).1.kind = .gap) {stop : Nat}
    (h : Between (before ++ c :: rest) (before.length + (firstPiece c rest).1.text.length) stop) :
    Between (before ++ c :: rest) before.length stop := by
  have far : before.length ≤ before.length + (firstPiece c rest).1.text.length :=
    Nat.le_add_right _ _
  have after := extract_append_drop (before ++ c :: rest) h.le
  rw [← List.drop_drop, drop_before] at after
  conv_rhs at after => rw [← firstPiece_append c rest, List.drop_left]
  refine ⟨far.trans h.le, ?_⟩
  rw [extract_append _ far h.le, extract_firstPiece]
  rcases firstPiece_gap gap with ⟨blank, piece⟩ | ⟨more, rfl, rfl, piece⟩
  · rw [piece] at h ⊢
    exact .blank blank h.gap
  · rw [piece] at h after ⊢
    refine .comment (fun mem => ?_) (fun d head => ?_) h.gap
    · simpa using List.mem_takeWhile_imp mem
    · rw [after] at head
      have := List.head?_dropWhile_not (· ≠ '\n') more
      rw [head] at this
      simpa using this

/-- **The pieces of a text** without faults are its tokens, and gaps. -/
theorem segments_pieces (before rest : List Char)
    (clean : (Scanned.ofPieces (1 + before.count '\n') (pieces rest)).errors = []) :
    ∃ spans, Segments (before ++ rest) before.length
      (Scanned.ofPieces (1 + before.count '\n') (pieces rest)).tokens spans := by
  fun_induction pieces rest generalizing before with
  | case1 =>
    rw [List.append_nil]
    exact ⟨[], .nil before⟩
  | case2 c rest ih =>
    have line : 1 + (before ++ (firstPiece c rest).1.text).count '\n' =
        1 + before.count '\n' + (firstPiece c rest).1.text.count '\n' := by
      rw [List.count_append, Nat.add_assoc]
    have ih := ih (before ++ (firstPiece c rest).1.text)
    rw [line, List.append_assoc, firstPiece_append, List.length_append] at ih
    unfold Scanned.ofPieces at clean ⊢
    dsimp only at clean ⊢
    cases found : (firstPiece c rest).1.kind with
    | token kind =>
      rw [found] at clean
      obtain ⟨spans, h⟩ := ih clean
      exact ⟨_ :: spans, .token (covers_firstPiece found) h⟩
    | gap =>
      rw [found] at clean
      obtain ⟨spans, h⟩ := ih clean
      exact ⟨spans, h.gap fun stop => between_firstPiece found⟩
    | stray =>
      rw [found] at clean
      cases clean
    | unclosed =>
      rw [found] at clean
      cases clean

/-! ## 3. Texts without faults

Where there are no faults, each piece is a token or a gap. -/

/-- **Every text without faults is its tokens, one behind the other, and what stands in between.**
There is a stretch of the text for each token, and the token has the text, the kind and the line of
its stretch; the stretch is as long as any lexeme that begins there; and in front of the first one,
between them and behind the last one there are only blanks and comments.  The end of the text is on
the line that all its newlines make. -/
theorem tokens_are_longest_lexemes {source : String} {stream : TokenStream}
    (h : scan source = .ok stream) :
    (∃ spans, List.Forall₂ (Token.Covers source.toList) stream.tokens spans ∧
      List.Forall₂ (Between source.toList) (0 :: spans.map Span.stop)
        (spans.map Span.start ++ [source.toList.length])) ∧
      stream.lastLine = 1 + source.toList.count '\n' := by
  have found := scan_eq_ok h
  have last := Scanned.lastLine_ofPieces 1 (pieces source.toList)
  obtain ⟨spans, segments⟩ := segments_pieces [] source.toList (congrArg Scanned.errors found)
  rw [List.count_nil, Nat.add_zero, found] at segments
  rw [flatMap_pieces, found] at last
  exact ⟨⟨spans, segments.covers, segments.gaps⟩, last⟩

/-- A number in front of a point, a name, a comparison, a string that ends on the second line, and a
comment. -/
theorem comparison_is_segmented :
    let source := "1.a<=\"\n\"//b"
    let stream : TokenStream := ⟨[⟨numberKind ['1'] [], "1", 1⟩, ⟨.symbol .dot, ".", 1⟩,
      ⟨.identifier, "a", 1⟩, ⟨.symbol .lessEqual, "<=", 1⟩, ⟨.string "\n", "\"\n\"", 2⟩], 2⟩
    scan source = .ok stream ∧
      (∃ spans, List.Forall₂ (Token.Covers source.toList) stream.tokens spans ∧
        List.Forall₂ (Between source.toList) (0 :: spans.map Span.stop)
          (spans.map Span.start ++ [source.toList.length])) ∧
      stream.lastLine = 1 + source.toList.count '\n' := by
  intro source stream
  have text : source.toList = ['1', '.', 'a', '<', '=', '"', '\n', '"', '/', '/', 'b'] :=
    String.toList_ofList
  have number : firstPiece '1' ['.', 'a', '<', '=', '"', '\n', '"', '/', '/', 'b'] =
      (⟨.token (numberKind ['1'] []), ['1']⟩,
        ['.', 'a', '<', '=', '"', '\n', '"', '/', '/', 'b']) :=
    rfl
  have point : firstPiece '.' ['a', '<', '=', '"', '\n', '"', '/', '/', 'b'] =
      (⟨.token (.symbol .dot), ['.']⟩, ['a', '<', '=', '"', '\n', '"', '/', '/', 'b']) := rfl
  have name : firstPiece 'a' ['<', '=', '"', '\n', '"', '/', '/', 'b'] =
      (⟨.token .identifier, ['a']⟩, ['<', '=', '"', '\n', '"', '/', '/', 'b']) := rfl
  have comparison : firstPiece '<' ['=', '"', '\n', '"', '/', '/', 'b'] =
      (⟨.token (.symbol .lessEqual), ['<', '=']⟩, ['"', '\n', '"', '/', '/', 'b']) := rfl
  have string : firstPiece '"' ['\n', '"', '/', '/', 'b'] =
      (⟨.token (.string "\n"), ['"', '\n', '"']⟩, ['/', '/', 'b']) := rfl
  have comment : firstPiece '/' ['/', 'b'] = (⟨.gap, ['/', '/', 'b']⟩, []) := rfl
  have scanned : scan source = .ok stream := by
    rw [scan, text, pieces, number, pieces, point, pieces, name, pieces, comparison, pieces, string,
      pieces, comment, pieces]
    rfl
  exact ⟨scanned, tokens_are_longest_lexemes scanned⟩

/-! ## 4. Pieces by computing

For a given text the pieces can be found by a function with fuel. -/

/-- The first pieces of a text, up to a given number of them. -/
def piecesUpTo : Nat → List Char → List Piece
  | 0, _ => []
  | _ + 1, [] => []
  | n + 1, c :: rest => (firstPiece c rest).1 :: piecesUpTo n (firstPiece c rest).2

/-- A text has no more pieces than characters, so its pieces can be computed by a recursion on a
number. -/
theorem pieces_eq_upTo {n : Nat} {text : List Char} (enough : text.length ≤ n) :
    pieces text = piecesUpTo n text := by
  induction n generalizing text with
  | zero =>
    obtain rfl := List.length_eq_zero_iff.1 (Nat.le_zero.1 enough)
    rw [pieces, piecesUpTo]
  | succ n ih =>
    cases text with
    | nil => rw [pieces, piecesUpTo]
    | cons c rest =>
      have shorter := firstPiece_length_lt c rest
      rw [pieces, piecesUpTo, ih (by omega)]

end Lox
