/-
# Phrases elsewhere

What follows a phrase makes no difference to it, and neither do the ids and lines it is read with:
a derivation can be moved to other tokens of the same kinds, in front of another rest, with other
ids.  What it derives there is alike.
-/
import Lox.Proofs.Syntax.Tables
import Lox.Proofs.Syntax.Likeness

namespace Lox

/-! ## 1. Moves

A spot inside a phrase is the number of tokens that are left, so it can be found again among the
moved tokens. -/

/-- What becomes of the tokens and ids of a phrase, and what stands behind it instead of the tokens
that are kept back. -/
structure Move (m : Likeness) where
  token : Token → Token
  id : Id → Id
  /-- The number of tokens that do not belong to the phrase. -/
  kept : Nat
  rest : List Token
  /-- The first id that the phrase can take. -/
  lo : Nat
  /-- The first id that it cannot take any more. -/
  hi : Nat
  kind : ∀ t, (token t).kind = t.kind
  name : ∀ t, t.kind = .identifier → (token t).lexeme = t.lexeme
  lines : ∀ t, m.lines t.line (token t).line
  step : ∀ i, lo ≤ i → id (i + 1) = id i + 1
  ids : ∀ i, lo ≤ i → i < hi → m.ids i (id i)

namespace Move

variable {m : Likeness}

/-- Where a spot inside the phrase is moved to. -/
def spot (v : Move m) (a : Spot) : Spot :=
  ⟨(a.tokens.take (a.size - v.kept)).map v.token ++ v.rest, v.id a.nextId⟩

/-- The phrase from `a` to `b` takes no tokens that are kept back, and only ids in the range. -/
abbrev Covers (v : Move m) (a b : Spot) : Prop :=
  v.lo ≤ a.nextId ∧ b.nextId ≤ v.hi ∧ v.kept ≤ b.size

/-- A token that is not kept back goes along. -/
theorem spot_cons (v : Move m) {t : Token} {tokens : List Token} {id : Id}
    (h : v.kept ≤ Spot.size ⟨tokens, id⟩) :
    v.spot ⟨t :: tokens, id⟩ = ⟨v.token t :: (v.spot ⟨tokens, id⟩).tokens, v.id id⟩ := by
  have size : Spot.size ⟨t :: tokens, id⟩ - v.kept = Spot.size ⟨tokens, id⟩ - v.kept + 1 := by
    simp only [Spot.size, List.length_cons] at h ⊢
    omega
  simp only [spot, size, List.take_succ_cons, List.map_cons, List.cons_append]

/-- An id in the range is taken at the new place too. -/
theorem spot_used (v : Move m) {a : Spot} (h : v.lo ≤ a.nextId) :
    v.spot a.used = (v.spot a).used := by
  simp only [spot, Spot.used, v.step _ h]
  rfl

/-- The next ids at the old place and at the new one are as the likeness says. -/
theorem ids_spot (v : Move m) {a : Spot} (lo : v.lo ≤ a.nextId) (hi : a.nextId < v.hi) :
    m.ids a.nextId (v.spot a).nextId :=
  v.ids _ lo hi

/-- Behind the phrase there is the new rest. -/
theorem spot_of_size_eq (v : Move m) {a : Spot} (h : a.size = v.kept) :
    v.spot a = ⟨v.rest, v.id a.nextId⟩ := by
  simp [spot, h]

end Move

namespace Grammar

variable {m : Likeness} (v : Move m)

/-! ## 2. Single tokens

A token may become any other one of its kind. -/

/-- A token with the right kind is a mark, wherever it stands. -/
theorem Mark.of_kind {symbol : Symbol} {t : Token} {tokens : List Token} {id : Id}
    (h : t.kind = .symbol symbol) : Mark symbol ⟨t :: tokens, id⟩ t.line ⟨tokens, id⟩ := by
  cases t
  cases h
  exact .mk

theorem Word.of_kind {keyword : Keyword} {t : Token} {tokens : List Token} {id : Id}
    (h : t.kind = .keyword keyword) : Word keyword ⟨t :: tokens, id⟩ t.line ⟨tokens, id⟩ := by
  cases t
  cases h
  exact .mk

theorem Named.of_kind {t : Token} {tokens : List Token} {id : Id} (h : t.kind = .identifier) :
    Named ⟨t :: tokens, id⟩ ⟨t.lexeme, t.line⟩ ⟨tokens, id⟩ := by
  cases t
  cases h
  exact .mk

/-- A mark stays a mark, with the line of the token that has taken its place. -/
theorem Mark.move {symbol : Symbol} {a b : Spot} {line : Nat} :
    Mark symbol a line b → v.kept ≤ b.size →
      ∃ line', Mark symbol (v.spot a) line' (v.spot b) ∧ m.lines line line'
  | .mk, h => by
    rw [v.spot_cons h]
    exact ⟨_, .of_kind (v.kind _), v.lines ⟨_, _, _⟩⟩

theorem Word.move {keyword : Keyword} {a b : Spot} {line : Nat} :
    Word keyword a line b → v.kept ≤ b.size →
      ∃ line', Word keyword (v.spot a) line' (v.spot b) ∧ m.lines line line'
  | .mk, h => by
    rw [v.spot_cons h]
    exact ⟨_, .of_kind (v.kind _), v.lines ⟨_, _, _⟩⟩

theorem Named.move {a b : Spot} {name : Name} :
    Named a name b → v.kept ≤ b.size →
      ∃ name', Named (v.spot a) name' (v.spot b) ∧ name.Alike m name'
  | @Named.mk text _ _ _, h => by
    rw [v.spot_cons h]
    exact ⟨_, .of_kind (v.kind _), (v.name ⟨.identifier, text, _⟩ rfl).symm, v.lines ⟨_, _, _⟩⟩

/-- A literal keeps its value, which is part of the kind of its token. -/
theorem Value.move {a b : Spot} {value : Literal} :
    Value a value b → v.kept ≤ b.size → Value (v.spot a) value (v.spot b)
  | .mk stands, h => by
    rw [v.spot_cons h]
    exact .mk (by rwa [v.kind])

theorem Before.move {a b : Spot} {op : UnaryOp} {line : Nat} :
    Before a op line b → v.kept ≤ b.size →
      ∃ line', Before (v.spot a) op line' (v.spot b) ∧ m.lines line line'
  | .mk stands, h => by
    rw [v.spot_cons h]
    exact ⟨_, .mk (by rwa [v.kind]), v.lines _⟩

/-- An operator stays one of its level. -/
theorem Between.move {level : Level} {a b : Spot} {op : Operator} {line : Nat} :
    Between level a op line b → v.kept ≤ b.size →
      ∃ line', Between level (v.spot a) op line' (v.spot b) ∧ m.lines line line'
  | .mk stands, h => by
    rw [v.spot_cons h]
    exact ⟨_, .mk (by rwa [v.kind]), v.lines _⟩

/-! ## 3. Expressions

By induction on the derivation.  Each part covers its own stretch of tokens and ids, which `extent`
gives. -/

mutual

/-- The derivation is copied, with the moved tokens.  An expression that takes no ids outside the
range takes none in any of its parts. -/
theorem Expression.move {a b : Spot} {e : Expr} :
    Expression a e b → v.Covers a b → ∃ e', Expression (v.spot a) e' (v.spot b) ∧ e.Alike m e'
  | .ladder of, h => by
    obtain ⟨e', of', like⟩ := of.move h
    exact ⟨e', .ladder of', like⟩
  | .assign target equal value, h => by
    have := target.extent
    have := equal.extent
    have := value.extent
    simp only [Move.Covers, Spot.size_used, Spot.nextId_used] at *
    obtain ⟨name', target', name⟩ := target.move v (by omega)
    obtain ⟨line', equal', -⟩ := equal.move v (by omega)
    obtain ⟨e', value', like⟩ := value.move (by omega)
    rw [v.spot_used (by omega)] at equal' ⊢
    exact ⟨_, .assign target' equal' value', .assign ⟨v.ids_spot (by omega) (by omega), name⟩ like⟩
  | .set object dot property equal value, h => by
    have := object.extent
    have := dot.extent
    have := property.extent
    have := equal.extent
    have := value.extent
    obtain ⟨o', object', likeObject⟩ := object.move (by omega)
    obtain ⟨line', dot', -⟩ := dot.move v (by omega)
    obtain ⟨name', property', name⟩ := property.move v (by omega)
    obtain ⟨line'', equal', -⟩ := equal.move v (by omega)
    obtain ⟨e', value', like⟩ := value.move (by omega)
    exact ⟨_, .set object' dot' property' equal' value', .set likeObject name like⟩

/-- A chain of operators, with each of its operands moved. -/
theorem Ladder.move {level : Level} {a b : Spot} {e : Expr} :
    Ladder level a e b → v.Covers a b →
      ∃ e', Ladder level (v.spot a) e' (v.spot b) ∧ e.Alike m e'
  | .operand of, h => by
    obtain ⟨e', of', like⟩ := of.move h
    exact ⟨e', .operand of', like⟩
  | .join left operator right, h => by
    have := left.extent
    have := operator.extent
    have := right.extent
    obtain ⟨l', left', likeLeft⟩ := left.move (by omega)
    obtain ⟨line', operator', lines⟩ := operator.move v (by omega)
    obtain ⟨r', right', likeRight⟩ := right.move (by omega)
    exact ⟨_, .join left' operator' right', .joined lines likeLeft likeRight _⟩

theorem Operand.move {level : Level} {a b : Spot} {e : Expr} :
    Operand level a e b → v.Covers a b →
      ∃ e', Operand level (v.spot a) e' (v.spot b) ∧ e.Alike m e'
  | .ladder tighter of, h => by
    obtain ⟨e', of', like⟩ := of.move h
    exact ⟨e', .ladder tighter of', like⟩
  | .unary of, h => by
    obtain ⟨e', of', like⟩ := of.move h
    exact ⟨e', .unary of', like⟩

theorem Unary.move {a b : Spot} {e : Expr} :
    Unary a e b → v.Covers a b → ∃ e', Unary (v.spot a) e' (v.spot b) ∧ e.Alike m e'
  | .op operator operand, h => by
    have := operator.extent
    have := operand.extent
    obtain ⟨line', operator', lines⟩ := operator.move v (by omega)
    obtain ⟨e', operand', like⟩ := operand.move (by omega)
    exact ⟨_, .op operator' operand', .unary lines like⟩
  | .call of, h => by
    obtain ⟨e', of', like⟩ := of.move h
    exact ⟨e', .call of', like⟩

/-- A callee, with what follows it. -/
theorem Call.move {a b : Spot} {e : Expr} :
    Call a e b → v.Covers a b → ∃ e', Call (v.spot a) e' (v.spot b) ∧ e.Alike m e'
  | .primary of, h => by
    obtain ⟨e', of', like⟩ := of.move h
    exact ⟨e', .primary of', like⟩
  | .call callee left arguments few right, h => by
    have := callee.extent
    have := left.extent
    have := arguments.extent
    have := right.extent
    obtain ⟨e', callee', like⟩ := callee.move (by omega)
    obtain ⟨line', left', -⟩ := left.move v (by omega)
    obtain ⟨es', arguments', likes⟩ := arguments.move (by omega)
    obtain ⟨line'', right', lines⟩ := right.move v (by omega)
    exact ⟨_, .call callee' left' arguments' (likes.length_eq ▸ few) right',
      .call like likes lines⟩
  | .get object dot property, h => by
    have := object.extent
    have := dot.extent
    have := property.extent
    obtain ⟨e', object', like⟩ := object.move (by omega)
    obtain ⟨line', dot', -⟩ := dot.move v (by omega)
    obtain ⟨name', property', name⟩ := property.move v (by omega)
    exact ⟨_, .get object' dot' property', .get like name⟩

/-- One case for each kind of primary expression.  Those that draw an id draw the next one at the
new place. -/
theorem Primary.move {a b : Spot} {e : Expr} :
    Primary a e b → v.Covers a b → ∃ e', Primary (v.spot a) e' (v.spot b) ∧ e.Alike m e'
  | .literal of, h => ⟨_, .literal (of.move v h.2.2), .literal _⟩
  | .named of, h => by
    have := of.extent
    simp only [Move.Covers, Spot.size_used, Spot.nextId_used] at *
    obtain ⟨name', of', name⟩ := of.move v (by omega)
    rw [v.spot_used (by omega)]
    exact ⟨_, .named of', .variable ⟨v.ids_spot (by omega) (by omega), name⟩⟩
  | .this word, h => by
    have := word.extent
    simp only [Move.Covers, Spot.size_used, Spot.nextId_used] at *
    obtain ⟨line', word', lines⟩ := word.move v (by omega)
    rw [v.spot_used (by omega)]
    exact ⟨_, .this word', .this (v.ids_spot (by omega) (by omega)) lines⟩
  | .super word dot method, h => by
    have := word.extent
    have := dot.extent
    have := method.extent
    simp only [Move.Covers, Spot.size_used, Spot.nextId_used] at *
    obtain ⟨line', word', lines⟩ := word.move v (by omega)
    obtain ⟨line'', dot', -⟩ := dot.move v (by omega)
    obtain ⟨name', method', name⟩ := method.move v (by omega)
    rw [v.spot_used (by omega)]
    exact ⟨_, .super word' dot' method', .super (v.ids_spot (by omega) (by omega)) lines name⟩
  | .grouping left inner right, h => by
    have := left.extent
    have := inner.extent
    have := right.extent
    obtain ⟨line', left', -⟩ := left.move v (by omega)
    obtain ⟨e', inner', like⟩ := inner.move (by omega)
    obtain ⟨line'', right', -⟩ := right.move v (by omega)
    exact ⟨_, .grouping left' inner' right', .grouping like⟩
  | .list left elements right, h => by
    have := left.extent
    have := elements.extent
    have := right.extent
    obtain ⟨line', left', lines⟩ := left.move v (by omega)
    obtain ⟨es', elements', likes⟩ := elements.move (by omega)
    obtain ⟨line'', right', -⟩ := right.move v (by omega)
    exact ⟨_, .list left' elements' right', .list lines likes⟩

theorem Series.move {a b : Spot} {es : List Expr} :
    Series a es b → v.Covers a b →
      ∃ es', Series (v.spot a) es' (v.spot b) ∧ Expr.AlikeAll m es es'
  | .none, _ => ⟨[], .none, .nil⟩
  | .some of, h => by
    obtain ⟨es', of', likes⟩ := of.move h
    exact ⟨es', .some of', likes⟩

/-- Items with commas between. -/
theorem Items.move {a b : Spot} {es : List Expr} :
    Items a es b → v.Covers a b → ∃ es', Items (v.spot a) es' (v.spot b) ∧ Expr.AlikeAll m es es'
  | .last item, h => by
    obtain ⟨e', item', like⟩ := item.move h
    exact ⟨[e'], .last item', .cons like .nil⟩
  | .more item comma rest, h => by
    have := item.extent
    have := comma.extent
    have := rest.extent
    obtain ⟨e', item', like⟩ := item.move (by omega)
    obtain ⟨line', comma', -⟩ := comma.move v (by omega)
    obtain ⟨es', rest', likes⟩ := rest.move (by omega)
    exact ⟨_, .more item' comma' rest', .cons like likes⟩

end

/-! ## 4. Parts of statements

What may be absent, and what stands in front of a statement. -/

variable {v}

/-- Parameters keep their names and may get other lines. -/
theorem Names.move {a b : Spot} {names : List Name} :
    Names a names b → v.Covers a b →
      ∃ names', Names (v.spot a) names' (v.spot b) ∧ List.Forall₂ (Name.Alike m) names names'
  | .last item, h => by
    obtain ⟨name', item', name⟩ := item.move v h.2.2
    exact ⟨[name'], .last item', .cons name .nil⟩
  | .more item comma rest, h => by
    have := item.extent
    have := comma.extent
    have := rest.extent
    obtain ⟨name', item', name⟩ := item.move v (by omega)
    obtain ⟨line', comma', -⟩ := comma.move v (by omega)
    obtain ⟨names', rest', names⟩ := rest.move (by omega)
    exact ⟨_, .more item' comma' rest', .cons name names⟩

theorem Parameters.move {a b : Spot} {names : List Name} :
    Parameters a names b → v.Covers a b →
      ∃ names', Parameters (v.spot a) names' (v.spot b) ∧ List.Forall₂ (Name.Alike m) names names'
  | .none, _ => ⟨[], .none, .nil⟩
  | .some of few, h => by
    obtain ⟨names', of', likes⟩ := of.move h
    exact ⟨names', .some of' (likes.length_eq ▸ few), likes⟩

theorem Optional.move {a b : Spot} {value : Option Expr} :
    Optional a value b → v.Covers a b →
      ∃ value', Optional (v.spot a) value' (v.spot b) ∧ Option.Rel (Expr.Alike m) value value'
  | .none, _ => ⟨Option.none, .none, .none⟩
  | .some of, h => by
    obtain ⟨e', of', like⟩ := of.move v h
    exact ⟨Option.some e', .some of', .some like⟩

/-- What may be absent is absent at the new place too. -/
theorem Initial.move {a b : Spot} {value : Option Expr} :
    Initial a value b → v.Covers a b →
      ∃ value', Initial (v.spot a) value' (v.spot b) ∧ Option.Rel (Expr.Alike m) value value'
  | .none, _ => ⟨Option.none, .none, .none⟩
  | .some equal of, h => by
    have := equal.extent
    have := of.extent
    obtain ⟨line', equal', -⟩ := equal.move v (by omega)
    obtain ⟨e', of', like⟩ := of.move v (by omega)
    exact ⟨Option.some e', .some equal' of', .some like⟩

theorem Superclass.move {a b : Spot} {superclass : Option Variable} :
    Superclass a superclass b → v.Covers a b →
      ∃ superclass', Superclass (v.spot a) superclass' (v.spot b) ∧
        Option.Rel (Variable.Alike m) superclass superclass'
  | .none, _ => ⟨Option.none, .none, .none⟩
  | .some less of, h => by
    have := less.extent
    have := of.extent
    simp only [Move.Covers, Spot.size_used, Spot.nextId_used] at *
    obtain ⟨line', less', -⟩ := less.move v (by omega)
    obtain ⟨name', of', name⟩ := of.move v (by omega)
    rw [v.spot_used (by omega)]
    exact ⟨_, .some less' of', .some ⟨v.ids_spot (by omega) (by omega), name⟩⟩

theorem Var.move {a b : Spot} {s : Stmt} :
    Var a s b → v.Covers a b → ∃ s', Var (v.spot a) s' (v.spot b) ∧ s.Alike m s'
  | .mk word of initial semicolon, h => by
    have := word.extent
    have := of.extent
    have := initial.extent
    have := semicolon.extent
    obtain ⟨line', word', -⟩ := word.move v (by omega)
    obtain ⟨name', of', name⟩ := of.move v (by omega)
    obtain ⟨value', initial', likes⟩ := initial.move (v := v) (by omega)
    obtain ⟨line'', semicolon', -⟩ := semicolon.move v (by omega)
    exact ⟨_, .mk word' of' initial' semicolon', .varDecl name likes⟩

theorem Evaluation.move {a b : Spot} {s : Stmt} :
    Evaluation a s b → v.Covers a b → ∃ s', Evaluation (v.spot a) s' (v.spot b) ∧ s.Alike m s'
  | .mk value semicolon, h => by
    have := value.extent
    have := semicolon.extent
    obtain ⟨e', value', like⟩ := value.move v (by omega)
    obtain ⟨line', semicolon', -⟩ := semicolon.move v (by omega)
    exact ⟨_, .mk value' semicolon', .expression like⟩

theorem OptionalVar.move {a b : Spot} :
    OptionalVar a b → v.Covers a b → OptionalVar (v.spot a) (v.spot b)
  | .none, _ => .none
  | .some word, h => by
    obtain ⟨line', word', -⟩ := word.move v h.2.2
    exact .some word'

/-- The first clause of a `for` loop. -/
theorem First.move {a b : Spot} {first : Option Stmt} :
    First a first b → v.Covers a b →
      ∃ first', First (v.spot a) first' (v.spot b) ∧ Option.Rel (Stmt.Alike m) first first'
  | .none semicolon, h => by
    obtain ⟨line', semicolon', -⟩ := semicolon.move v h.2.2
    exact ⟨Option.none, .none semicolon', .none⟩
  | .varDecl of, h => by
    obtain ⟨s', of', like⟩ := of.move h
    exact ⟨Option.some s', .varDecl of', .some like⟩
  | .expression of, h => by
    obtain ⟨s', of', like⟩ := of.move h
    exact ⟨Option.some s', .expression of', .some like⟩

/-- A condition that is missing stands for `true` at any place. -/
theorem Test.move {a b : Spot} {e : Expr} :
    Test a e b → v.Covers a b → ∃ e', Test (v.spot a) e' (v.spot b) ∧ e.Alike m e'
  | .none, _ => ⟨_, .none, .literal _⟩
  | .some of, h => by
    obtain ⟨e', of', like⟩ := of.move v h
    exact ⟨e', .some of', like⟩

/-! ## 5. Statements

What stands in front of the body of a loop or a branch moves on its own, and the body behind it. -/

/-- The head of an `if` or a `while` loop. -/
theorem move_test {keyword : Keyword} {a b c d f : Spot} {line line' line'' : Nat} {e : Expr}
    (word : Word keyword a line b) (left : Mark .leftParen b line' c) (condition : Expression c e d)
    (right : Mark .rightParen d line'' f) (h : v.Covers a f) :
    (∃ line, Word keyword (v.spot a) line (v.spot b)) ∧
      (∃ line, Mark .leftParen (v.spot b) line (v.spot c)) ∧
      (∃ e', Expression (v.spot c) e' (v.spot d) ∧ e.Alike m e') ∧
      ∃ line, Mark .rightParen (v.spot d) line (v.spot f) := by
  have := word.extent
  have := left.extent
  have := condition.extent
  have := right.extent
  obtain ⟨_, word', -⟩ := word.move v (by omega)
  obtain ⟨_, left', -⟩ := left.move v (by omega)
  obtain ⟨_, right', -⟩ := right.move v (by omega)
  exact ⟨⟨_, word'⟩, ⟨_, left'⟩, condition.move v (by omega), _, right'⟩

/-- A `for` loop, once its body has been moved. -/
theorem move_forLoop {closed : Bool} {a b c d f g h i j : Spot} {line line' line'' line''' : Nat}
    {first : Option Stmt} {e : Expr} {step : Option Expr} {s s' : Stmt} (word : Word .for a line b)
    (left : Mark .leftParen b line' c) (initializer : First c first d) (condition : Test d e f)
    (semicolon : Mark .semicolon f line'' g) (increment : Optional g step h)
    (right : Mark .rightParen h line''' i) (covers : v.Covers a i)
    (body : Statement closed (v.spot i) s' (v.spot j)) (like : s.Alike m s') :
    ∃ s'', Statement closed (v.spot a) s'' (v.spot j) ∧ (loop first e step s).Alike m s'' := by
  have := word.extent
  have := left.extent
  have := initializer.extent
  have := condition.extent
  have := semicolon.extent
  have := increment.extent
  have := right.extent
  obtain ⟨_, word', -⟩ := word.move v (by omega)
  obtain ⟨_, left', -⟩ := left.move v (by omega)
  obtain ⟨first', initializer', likeFirst⟩ := initializer.move (v := v) (by omega)
  obtain ⟨e', condition', likeCondition⟩ := condition.move (v := v) (by omega)
  obtain ⟨_, semicolon', -⟩ := semicolon.move v (by omega)
  obtain ⟨step', increment', likeStep⟩ := increment.move (v := v) (by omega)
  obtain ⟨_, right', -⟩ := right.move v (by omega)
  exact ⟨_, .forLoop word' left' initializer' condition' semicolon' increment' right' body,
    .loop likeFirst likeCondition likeStep like⟩

/-- A `foreach` loop, once its body has been moved. -/
theorem move_forEach {closed : Bool} {a b c d f g h i j : Spot} {line line' line'' line''' : Nat}
    {name : Name} {e : Expr} {s s' : Stmt} (word : Word .foreach a line b)
    (left : Mark .leftParen b line' c) (declared : OptionalVar c d) (item : Named d name f)
    (semicolon : Mark .semicolon f line'' g) (iterable : Expression g e h)
    (right : Mark .rightParen h line''' i) (covers : v.Covers a i)
    (body : Statement closed (v.spot i) s' (v.spot j)) (like : s.Alike m s') :
    ∃ s'', Statement closed (v.spot a) s'' (v.spot j) ∧
      (Stmt.forEach line name e s).Alike m s'' := by
  have := word.extent
  have := left.extent
  have := declared.extent
  have := item.extent
  have := semicolon.extent
  have := iterable.extent
  have := right.extent
  obtain ⟨_, word', lines⟩ := word.move v (by omega)
  obtain ⟨_, left', -⟩ := left.move v (by omega)
  have declared' := declared.move (v := v) (by omega)
  obtain ⟨name', item', names⟩ := item.move v (by omega)
  obtain ⟨_, semicolon', -⟩ := semicolon.move v (by omega)
  obtain ⟨e', iterable', likeIterable⟩ := iterable.move v (by omega)
  obtain ⟨_, right', -⟩ := right.move v (by omega)
  exact ⟨_, .forEach word' left' declared' item' semicolon' iterable' right' body,
    .forEach lines names likeIterable like⟩

mutual

/-- One case for each kind of declaration. -/
theorem Declaration.move {a b : Spot} {s : Stmt} :
    Declaration a s b → v.Covers a b → ∃ s', Declaration (v.spot a) s' (v.spot b) ∧ s.Alike m s'
  | .classDecl word of extended left body right, h => by
    have := word.extent
    have := of.extent
    have := extended.extent
    have := left.extent
    have := body.extent
    have := right.extent
    obtain ⟨_, word', -⟩ := word.move v (by omega)
    obtain ⟨name', of', name⟩ := of.move v (by omega)
    obtain ⟨superclass', extended', likeSuperclass⟩ := extended.move (v := v) (by omega)
    obtain ⟨_, left', -⟩ := left.move v (by omega)
    obtain ⟨methods', body', likes⟩ := body.move (by omega)
    obtain ⟨_, right', -⟩ := right.move v (by omega)
    exact ⟨_, .classDecl word' of' extended' left' body' right',
      .classDecl name likeSuperclass likes⟩
  | .funDecl word of, h => by
    have := word.extent
    have := of.extent
    obtain ⟨_, word', -⟩ := word.move v (by omega)
    obtain ⟨declaration', of', like⟩ := of.move (by omega)
    exact ⟨_, .funDecl word' of', .funDecl like⟩
  | .varDecl of, h => by
    obtain ⟨s', of', like⟩ := of.move h
    exact ⟨s', .varDecl of', like⟩
  | .statement of, h => by
    obtain ⟨s', of', like⟩ := of.move h
    exact ⟨s', .statement of', like⟩

theorem Declarations.move {a b : Spot} {body : List Stmt} :
    Declarations a body b → v.Covers a b →
      ∃ body', Declarations (v.spot a) body' (v.spot b) ∧ Stmt.AlikeAll m body body'
  | .none, _ => ⟨[], .none, .nil⟩
  | .more first rest, h => by
    have := first.extent
    have := rest.extent
    obtain ⟨s', first', like⟩ := first.move (by omega)
    obtain ⟨body', rest', likes⟩ := rest.move (by omega)
    exact ⟨s' :: body', .more first' rest', .cons like likes⟩

theorem Block.move {a b : Spot} {body : List Stmt} :
    Block a body b → v.Covers a b →
      ∃ body', Block (v.spot a) body' (v.spot b) ∧ Stmt.AlikeAll m body body'
  | .mk left of right, h => by
    have := left.extent
    have := of.extent
    have := right.extent
    obtain ⟨_, left', -⟩ := left.move v (by omega)
    obtain ⟨body', of', likes⟩ := of.move (by omega)
    obtain ⟨_, right', -⟩ := right.move v (by omega)
    exact ⟨body', .mk left' of' right', likes⟩

/-- A function with its parameters and its body. -/
theorem Function.move {a b : Spot} {declaration : FunDecl} :
    Function a declaration b → v.Covers a b →
      ∃ declaration', Function (v.spot a) declaration' (v.spot b) ∧
        declaration.Alike m declaration'
  | .mk of left parameters right block, h => by
    have := of.extent
    have := left.extent
    have := parameters.extent
    have := right.extent
    have := block.extent
    obtain ⟨name', of', name⟩ := of.move v (by omega)
    obtain ⟨_, left', -⟩ := left.move v (by omega)
    obtain ⟨params', parameters', names⟩ := parameters.move (v := v) (by omega)
    obtain ⟨_, right', -⟩ := right.move v (by omega)
    obtain ⟨body', block', likes⟩ := block.move (by omega)
    exact ⟨_, .mk of' left' parameters' right' block', .mk name names likes⟩

theorem Methods.move {a b : Spot} {methods : List FunDecl} :
    Methods a methods b → v.Covers a b →
      ∃ methods', Methods (v.spot a) methods' (v.spot b) ∧ FunDecl.AlikeAll m methods methods'
  | .none, _ => ⟨[], .none, .nil⟩
  | .more first rest, h => by
    have := first.extent
    have := rest.extent
    obtain ⟨method', first', like⟩ := first.move (by omega)
    obtain ⟨methods', rest', likes⟩ := rest.move (by omega)
    exact ⟨method' :: methods', .more first' rest', .cons like likes⟩

/-- One case for each kind of statement.  Whether it is closed does not change. -/
theorem Statement.move {closed : Bool} {a b : Spot} {s : Stmt} :
    Statement closed a s b → v.Covers a b →
      ∃ s', Statement closed (v.spot a) s' (v.spot b) ∧ s.Alike m s'
  | .ifThen word left condition right branch, h => by
    have := extent_test word left condition right
    have := branch.extent
    obtain ⟨⟨_, word'⟩, ⟨_, left'⟩, ⟨_, condition', likeCondition⟩, _, right'⟩ :=
      move_test (v := v) word left condition right (by omega)
    obtain ⟨s', branch', like⟩ := branch.move (by omega)
    exact ⟨_, .ifThen word' left' condition' right' branch', .ifThen likeCondition like⟩
  | .ifElse word left condition right branch otherwise branch', h => by
    have := extent_test word left condition right
    have := branch.extent
    have := otherwise.extent
    have := branch'.extent
    obtain ⟨⟨_, word'⟩, ⟨_, left'⟩, ⟨_, condition', likeCondition⟩, _, right'⟩ :=
      move_test (v := v) word left condition right (by omega)
    obtain ⟨s', then', likeThen⟩ := branch.move (by omega)
    obtain ⟨_, otherwise', -⟩ := otherwise.move v (by omega)
    obtain ⟨t', else', likeElse⟩ := branch'.move (by omega)
    exact ⟨_, .ifElse word' left' condition' right' then' otherwise' else',
      .ifElse likeCondition likeThen likeElse⟩
  | .print word value semicolon, h => by
    have := word.extent
    have := value.extent
    have := semicolon.extent
    obtain ⟨_, word', lines⟩ := word.move v (by omega)
    obtain ⟨e', value', like⟩ := value.move v (by omega)
    obtain ⟨_, semicolon', -⟩ := semicolon.move v (by omega)
    exact ⟨_, .print word' value' semicolon', .print lines like⟩
  | .ret word of semicolon, h => by
    have := word.extent
    have := of.extent
    have := semicolon.extent
    obtain ⟨_, word', lines⟩ := word.move v (by omega)
    obtain ⟨value', of', likes⟩ := of.move (v := v) (by omega)
    obtain ⟨_, semicolon', -⟩ := semicolon.move v (by omega)
    exact ⟨_, .ret word' of' semicolon', .ret lines likes⟩
  | .block of, h => by
    obtain ⟨body', of', likes⟩ := of.move h
    exact ⟨_, .block of', .block likes⟩
  | .whileLoop word left condition right body, h => by
    have := extent_test word left condition right
    have := body.extent
    obtain ⟨⟨_, word'⟩, ⟨_, left'⟩, ⟨_, condition', likeCondition⟩, _, right'⟩ :=
      move_test (v := v) word left condition right (by omega)
    obtain ⟨s', body', like⟩ := body.move (by omega)
    exact ⟨_, .whileLoop word' left' condition' right' body', .whileLoop likeCondition like⟩
  | .forLoop word left initializer condition semicolon increment right body, h => by
    have := extent_clauses word left initializer condition semicolon increment right
    have := body.extent
    obtain ⟨s', body', like⟩ := body.move (by omega)
    exact move_forLoop word left initializer condition semicolon increment right (by omega) body' like
  | .forEach word left declared item semicolon iterable right body, h => by
    have := extent_items word left declared item semicolon iterable right
    have := body.extent
    obtain ⟨s', body', like⟩ := body.move (by omega)
    exact move_forEach word left declared item semicolon iterable right (by omega) body' like
  | .evaluation of, h => by
    obtain ⟨s', of', like⟩ := of.move h
    exact ⟨s', .evaluation of', like⟩

end

end Grammar

end Lox
