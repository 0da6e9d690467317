/-
# The reader and the grammar

A text is read as a program if and only if the grammar derives the program from its tokens, and
written out again a tree gives the tokens it came from.  One thing is lost: a number literal is kept
as its value, and `1`, `01` and `1.0` are one value.
-/
import Mathlib
import Lox.Proofs.Syntax.Completeness
import Lox.Proofs.Syntax.Flatten
import Lox.Proofs.Syntax.Reading
import Lox.Proofs.Syntax.Soundness
import Lox.Proofs.Token.Lexeme

namespace Lox

/-! ## 1. How tokens are spelt -/

/-- The text is the one that the kind fixes, if it fixes one; numbers may be spelt in other ways. -/
def Kind.Spelt (kind : Kind) (lexeme : String) : Prop :=
  (∃ value, kind = .number value) ∨ ∀ text, kind.text? = some text → lexeme = text

theorem Lexeme.spelt {text : List Char} {kind : Kind} (h : Lexeme text kind) :
    kind.Spelt (String.ofList text) := by
  cases h with
  | symbol symbol => exact .inr fun _ same => String.ofList_toList.trans (Option.some.inj same)
  | keyword word => exact .inr fun _ same => String.ofList_toList.trans (Option.some.inj same)
  | identifier => exact .inr fun _ same => nomatch same
  | string =>
    refine .inr fun _ same => ?_
    rw [← Option.some.inj same, ← String.toList_inj]
    simp
  | number => exact .inl ⟨_, rfl⟩

theorem spelt_firstPiece (c : Char) (rest : List Char) (kind : Kind)
    (token : (firstPiece c rest).1.kind = .token kind) :
    kind.Spelt (String.ofList (firstPiece c rest).1.text) :=
  (lexeme_firstPiece token).spelt

/-- The tokens of a text are spelt as their kinds say. -/
theorem spelt_of_scan {source : String} {stream : TokenStream} (h : scan source = .ok stream) :
    ∀ token ∈ stream.tokens, token.kind.Spelt token.lexeme :=
  forall_tokens_of_scan spelt_firstPiece h

/-- Tokens of one kind and one text, save that numbers may be spelt in different ways. -/
def Token.Same (token token' : Token) : Prop :=
  token.kind = token'.kind ∧ (token.lexeme = token'.lexeme ∨ ∃ value, token.kind = .number value)

theorem Token.same_plain {token : Token} (h : token.kind.Spelt token.lexeme) :
    token.Same token.plain := by
  refine ⟨rfl, ?_⟩
  rcases h with number | fixed
  · exact .inr number
  · left
    unfold Token.plain
    cases htext : token.kind.text? with
    | none => rfl
    | some text => exact fixed text htext

theorem same_plain_of_forall {tokens : List Token}
    (h : ∀ token ∈ tokens, token.kind.Spelt token.lexeme) :
    List.Forall₂ Token.Same tokens (tokens.map Token.plain) := by
  rw [List.forall₂_map_right_iff]
  exact List.forall₂_same.2 fun token hmem => Token.same_plain (h token hmem)

/-! ## 2. Reading and writing -/

/-- A program is read if and only if the grammar derives it from all of the tokens. -/
theorem parse_ok_iff {stream : TokenStream} {firstId : Id} {program : List Stmt} :
    (parse stream firstId).result = .ok program ↔
      ∃ id, Grammar.Declarations ⟨stream.tokens, firstId⟩ program ⟨[], id⟩ := by
  constructor
  · exact fun h => ⟨_, declarations_of_parse h⟩
  · rintro ⟨id, h⟩
    rw [parse_of_declarations h]

/-- What an expression was derived from is what it is written out as. -/
theorem Grammar.Expression.consumed {a b : Spot} {e : Expr} (h : Grammar.Expression a e b)
    (spelt : ∀ token ∈ a.tokens, token.kind.Spelt token.lexeme) :
    ∃ consumed, a.tokens = consumed ++ b.tokens ∧ List.Forall₂ Token.Same consumed e.tokens := by
  obtain ⟨consumed, found, plain⟩ := h.yields
  refine ⟨consumed, found, plain ▸ same_plain_of_forall fun token hmem => spelt token ?_⟩
  rw [found]
  exact List.mem_append_left _ hmem

theorem consumed_of_expression {source : String} {stream : TokenStream}
    (scanned : scan source = .ok stream) {fuel : Nat} {state state' : ParseState} {e : Expr}
    (inside : state.rest <:+ stream.tokens) (read : Parse.expression fuel state = .ok e state')
    (clean : state'.errors = []) :
    ∃ consumed, state.rest = consumed ++ state'.rest ∧
      List.Forall₂ Token.Same consumed e.tokens := by
  have accepts := (Parse.acceptsExprs fuel).expression _ state rfl
  rw [read] at accepts
  exact (accepts clean).2.consumed fun token hmem =>
    spelt_of_scan scanned token (inside.subset hmem)

/-- What is written out is read again as a program that is alike. -/
theorem parse_tokens {a b : Spot} {program : List Stmt} (h : Grammar.Declarations a program b)
    (lastLine : Nat) (firstId : Id) :
    ∃ program' id, parse ⟨Stmt.allTokens program, lastLine⟩ firstId = ⟨.ok program', id⟩ ∧
      Stmt.AlikeAll .shape program program' := by
  obtain ⟨program', id, h', likes⟩ := h.readsBack [] firstId
  rw [List.append_nil] at h'
  exact ⟨program', id, parse_of_declarations h', likes⟩

/-! ## 3. Number literals -/

/-- The tokens of a number literal that stands as a statement. -/
def numberStatement (digits : List Char) : TokenStream :=
  ⟨[⟨numberKind digits [], String.ofList digits, 1⟩, ⟨.symbol .semicolon, ";", 1⟩], 1⟩

theorem scan_numberStatement {source : String} {digits rest : List Char} {c : Char}
    (text : source.toList = c :: rest)
    (first : firstPiece c rest = (⟨.token (numberKind digits []), digits⟩, [';']))
    (oneLine : digits.count '\n' = 0) : scan source = .ok (numberStatement digits) := by
  have last : firstPiece ';' [] = (⟨.token (.symbol .semicolon), [';']⟩, []) := rfl
  have found : pieces source.toList =
      [⟨.token (numberKind digits []), digits⟩, ⟨.token (.symbol .semicolon), [';']⟩] := by
    rw [text, pieces, first, pieces, last, pieces]
  rw [scan, found]
  simp only [Scanned.ofPieces, oneLine]
  rfl

theorem expression_numberStatement (digits : List Char) :
    Grammar.Expression ⟨(numberStatement digits).tokens, 0⟩
      (.literal (.number (Decimal.nearest (digits ++ []) (-0))))
      ⟨[⟨.symbol .semicolon, ";", 1⟩], 0⟩ :=
  (Grammar.Unary.call (.primary (.literal (.mk rfl)))).expression

theorem parse_numberStatement (digits : List Char) :
    (parse (numberStatement digits) 0).result = .ok
      [.expression (.literal (.number (Decimal.nearest (digits ++ []) (-0))))] :=
  parse_ok_iff.2 ⟨0, .more (.statement (.evaluation (.mk (expression_numberStatement digits) .mk)))
    .none⟩

/-- Of `1` and `01` one tree is read, and so nothing can tell from the tree which of them it was. -/
theorem spelling_is_lost :
    ¬ ∃ flatten : Expr → List (Kind × String),
      ∀ (source : String) (stream : TokenStream) (e : Expr), scan source = .ok stream →
        (parse stream 0).result = .ok [.expression e] →
          flatten e ++ [(.symbol .semicolon, ";")] =
            stream.tokens.map fun token => (token.kind, token.lexeme) := by
  rintro ⟨flatten, back⟩
  have short := back "1;" (numberStatement ['1']) _ (scan_numberStatement rfl rfl rfl)
    (parse_numberStatement ['1'])
  have long := back "01;" (numberStatement ['0', '1']) _ (scan_numberStatement rfl rfl rfl)
    (parse_numberStatement ['0', '1'])
  have same : Decimal.nearest (['0', '1'] ++ []) (-0) = Decimal.nearest (['1'] ++ []) (-0) := rfl
  rw [same, short] at long
  have lexemes := congrArg (fun tokens => tokens.map Prod.snd) long
  revert lexemes
  decide

/-! ## 4. The reader -/

/-- **The reader is sound and complete for the grammar.**  A program is read if and only if the
grammar derives it from the tokens; an expression is written out as the tokens it was read from, up
to the spelling of numbers; and a program that the grammar derives, once written out, is read again,
up to ids and lines. -/
theorem reader_is_grammar :
    (∀ (stream : TokenStream) (firstId : Id) (program : List Stmt),
      (parse stream firstId).result = .ok program ↔
        ∃ id, Grammar.Declarations ⟨stream.tokens, firstId⟩ program ⟨[], id⟩) ∧
    (∀ (source : String) (stream : TokenStream), scan source = .ok stream →
      ∀ (fuel : Nat) (state state' : ParseState) (e : Expr), state.rest <:+ stream.tokens →
        Parse.expression fuel state = .ok e state' → state'.errors = [] →
          ∃ consumed, state.rest = consumed ++ state'.rest ∧
            List.Forall₂ Token.Same consumed e.tokens) ∧
    ∀ (a b : Spot) (program : List Stmt), Grammar.Declarations a program b →
      ∀ (lastLine : Nat) (firstId : Id), ∃ program' id,
        parse ⟨Stmt.allTokens program, lastLine⟩ firstId = ⟨.ok program', id⟩ ∧
          Stmt.AlikeAll .shape program program' :=
  ⟨fun _ _ _ => parse_ok_iff,
    fun _ _ scanned _ _ _ _ inside read clean =>
      consumed_of_expression scanned inside read clean,
    fun _ _ _ h lastLine firstId => parse_tokens h lastLine firstId⟩

/-- A loop with all its clauses, and in them operators of several levels, an operator in front, an
assignment, a call and a list. -/
def loopText : String := "for (var i = nil; i == a or b < c; i = -f(i, [a * b])) print i + a * b;"

/-- The assignment in that loop. -/
def loopStep : Expr :=
  .assign ⟨9, ⟨"i", 1⟩⟩ (.unary .negate 1 (.call (.variable ⟨5, ⟨"f", 1⟩⟩)
    [.variable ⟨6, ⟨"i", 1⟩⟩,
      .list 1 [.binary .multiply 1 (.variable ⟨7, ⟨"a", 1⟩⟩) (.variable ⟨8, ⟨"b", 1⟩⟩)]] 1))

/-- What that loop is short for. -/
def loopProgram : List Stmt :=
  [.block [.varDecl ⟨"i", 1⟩ (some (.literal .nil)),
    .whileLoop
      (.logical .or 1
        (.binary .equal 1 (.variable ⟨0, ⟨"i", 1⟩⟩) (.variable ⟨1, ⟨"a", 1⟩⟩))
        (.binary .less 1 (.variable ⟨2, ⟨"b", 1⟩⟩) (.variable ⟨3, ⟨"c", 1⟩⟩)))
      (.block [
        .print 1 (.binary .add 1 (.variable ⟨10, ⟨"i", 1⟩⟩)
          (.binary .multiply 1 (.variable ⟨11, ⟨"a", 1⟩⟩) (.variable ⟨12, ⟨"b", 1⟩⟩))),
        .expression loopStep])]]

/-- The loop is derived, its assignment is written out as its tokens, and the whole is read again
when it has been written out. -/
theorem loop_is_given_back :
    ∃ stream state', scan loopText = .ok stream ∧ (parse stream 0).result = .ok loopProgram ∧
      (∃ id, Grammar.Declarations ⟨stream.tokens, 0⟩ loopProgram ⟨[], id⟩) ∧
      Parse.expression 100 ⟨stream.tokens.drop 15, 1, 4, []⟩ = .ok loopStep state' ∧
      state'.errors = [] ∧
      (∃ consumed, stream.tokens.drop 15 = consumed ++ state'.rest ∧
        List.Forall₂ Token.Same consumed loopStep.tokens) ∧
      ∃ program' id, parse ⟨Stmt.allTokens loopProgram, 1⟩ 0 = ⟨.ok program', id⟩ ∧
        Stmt.AlikeAll .shape loopProgram program' := by
  obtain ⟨stream, state', scanned, parsed, read, clean⟩ : ∃ stream state',
      scan loopText = .ok stream ∧ (parse stream 0).result = .ok loopProgram ∧
        Parse.expression 100 ⟨stream.tokens.drop 15, 1, 4, []⟩ = .ok loopStep state' ∧
        state'.errors = [] :=
    ⟨_, _, by cbv, by cbv, by cbv, by cbv⟩
  obtain ⟨derives, consumes, readsBack⟩ := reader_is_grammar
  obtain ⟨id, derived⟩ := (derives stream 0 loopProgram).1 parsed
  refine ⟨stream, state', scanned, parsed, ⟨id, derived⟩, read, clean, ?_, ?_⟩
  · exact consumes loopText stream scanned 100 _ _ _ (List.drop_suffix _ _) read clean
  · exact readsBack _ _ loopProgram derived 1 0

end Lox
