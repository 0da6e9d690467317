/-
# Trees written out

`Expr.tokens` and `Stmt.tokens` write a tree as the tokens it stands for.  A tree keeps the kind of
each of its tokens and the text of each name, so that for an expression these are the tokens it was
read from, up to their lines and to how its numbers were spelt (`Grammar.Expression.yields`).  A
`for` loop is written as the `while` loop it has become; what is read from the tokens of a statement
is that statement again, with other ids and lines (`Grammar.Statement.readsBack`).
-/
import Lox.Proofs.Syntax.Move
import Lox.Decimal.Positional

namespace Lox

/-! ## 1. Tokens

Most kinds of tokens have one spelling.  Numbers and texts are spelt out again, and names are what
they are. -/

/-- The text of a token, for the kinds that fix it; of a number the one it is printed with. -/
def Kind.text? : Kind → Option String
  | .symbol mark => some mark.text
  | .keyword word => some word.text
  | .identifier => none
  | .string contents => some ("\"" ++ contents ++ "\"")
  | .number value => some (Decimal.numberText value)

/-- A token of a kind that fixes its text. -/
def Kind.token (kind : Kind) : Token := ⟨kind, kind.text?.getD "", 0⟩

/-- The token of a symbol. -/
def Symbol.token (symbol : Symbol) : Token := Kind.token (.symbol symbol)

/-- The token of a reserved word. -/
def Keyword.token (keyword : Keyword) : Token := Kind.token (.keyword keyword)

/-- The token of a name. -/
def Name.token (name : Name) : Token := ⟨.identifier, name.text, 0⟩

/-- A token without its line and its spelling. -/
def Token.plain (token : Token) : Token := ⟨token.kind, token.kind.text?.getD token.lexeme, 0⟩

/-- The kind of token that stands for a literal. -/
def Literal.kind : Literal → Kind
  | .nil => .keyword .nil
  | .boolean true => .keyword .true
  | .boolean false => .keyword .false
  | .number value => .number value
  | .string contents => .string contents

/-- The kind of token that stands for an operator. -/
def UnaryOp.kind : UnaryOp → Kind
  | .negate => .symbol .minus
  | .not => .symbol .bang

/-- The kind of token that stands for an operator. -/
def BinaryOp.kind : BinaryOp → Kind
  | .equal => .symbol .equalEqual
  | .notEqual => .symbol .bangEqual
  | .greater => .symbol .greater
  | .greaterEqual => .symbol .greaterEqual
  | .less => .symbol .less
  | .lessEqual => .symbol .lessEqual
  | .add => .symbol .plus
  | .subtract => .symbol .minus
  | .multiply => .symbol .star
  | .divide => .symbol .slash

/-- The kind of token that stands for an operator. -/
def LogicalOp.kind : LogicalOp → Kind
  | .and => .keyword .and
  | .or => .keyword .or

/-- The kind of token that stands for an operator. -/
def Operator.kind : Operator → Kind
  | .binary op => op.kind
  | .logical op => op.kind

/-! ## 2. Trees

The tokens of a tree are those of its parts, with the words and marks of the construct between.
Parentheses are a node of the tree, so none are lost. -/

mutual

/-- The tokens of an expression. -/
def Expr.tokens : Expr → List Token
  | .literal value => [value.kind.token]
  | .grouping inner => Symbol.leftParen.token :: inner.tokens ++ [Symbol.rightParen.token]
  | .unary op _ operand => op.kind.token :: operand.tokens
  | .binary op _ left right => left.tokens ++ op.kind.token :: right.tokens
  | .logical op _ left right => left.tokens ++ op.kind.token :: right.tokens
  | .variable occurrence => [occurrence.name.token]
  | .assign target value => target.name.token :: Symbol.equal.token :: value.tokens
  | .call callee arguments _ =>
    callee.tokens ++ Symbol.leftParen.token :: Expr.seriesTokens arguments ++
      [Symbol.rightParen.token]
  | .get object property => object.tokens ++ [Symbol.dot.token, property.token]
  | .set object property value =>
    object.tokens ++ Symbol.dot.token :: property.token :: Symbol.equal.token :: value.tokens
  | .this _ _ => [Keyword.this.token]
  | .super _ _ method => [Keyword.super.token, Symbol.dot.token, method.token]
  | .list _ elements =>
    Symbol.leftBracket.token :: Expr.seriesTokens elements ++ [Symbol.rightBracket.token]

/-- The tokens of expressions with commas between them. -/
def Expr.seriesTokens : List Expr → List Token
  | [] => []
  | first :: rest => first.tokens ++ Expr.moreTokens rest

/-- The tokens of expressions with commas in front of them. -/
def Expr.moreTokens : List Expr → List Token
  | [] => []
  | first :: rest => Symbol.comma.token :: first.tokens ++ Expr.moreTokens rest

end

/-- The tokens of names with commas between them. -/
def Name.seriesTokens (names : List Name) : List Token :=
  (names.map Name.token).intersperse Symbol.comma.token

/-- The tokens of an initial value and the sign in front of it, if there is one. -/
def Expr.initialTokens : Option Expr → List Token
  | none => []
  | some value => Symbol.equal.token :: value.tokens

/-- The tokens of an expression, if there is one. -/
def Expr.optionalTokens : Option Expr → List Token
  | none => []
  | some value => value.tokens

/-- The tokens of the name of a class that is extended, if there is one. -/
def Variable.superclassTokens : Option Variable → List Token
  | none => []
  | some superclass => [Symbol.less.token, superclass.name.token]

mutual

/-- The tokens of a statement. -/
def Stmt.tokens : Stmt → List Token
  | .print _ value => Keyword.print.token :: value.tokens ++ [Symbol.semicolon.token]
  | .expression value => value.tokens ++ [Symbol.semicolon.token]
  | .varDecl name initializer =>
    Keyword.var.token :: name.token :: Expr.initialTokens initializer ++ [Symbol.semicolon.token]
  | .block body =>
    Symbol.leftBrace.token :: Stmt.allTokens body ++ [Symbol.rightBrace.token]
  | .ifElse condition thenBranch none =>
    Keyword.if.token :: Symbol.leftParen.token :: condition.tokens ++
      Symbol.rightParen.token :: thenBranch.tokens
  | .ifElse condition thenBranch (some elseBranch) =>
    Keyword.if.token :: Symbol.leftParen.token :: condition.tokens ++
      Symbol.rightParen.token :: thenBranch.tokens ++ Keyword.else.token :: elseBranch.tokens
  | .whileLoop condition body =>
    Keyword.while.token :: Symbol.leftParen.token :: condition.tokens ++
      Symbol.rightParen.token :: body.tokens
  | .forEach _ name iterable body =>
    Keyword.foreach.token :: Symbol.leftParen.token :: Keyword.var.token :: name.token ::
      Symbol.semicolon.token :: iterable.tokens ++ Symbol.rightParen.token :: body.tokens
  | .funDecl declaration => Keyword.fun.token :: declaration.tokens
  | .ret _ value => Keyword.return.token :: Expr.optionalTokens value ++ [Symbol.semicolon.token]
  | .classDecl name superclass methods =>
    Keyword.class.token :: name.token :: Variable.superclassTokens superclass ++
      Symbol.leftBrace.token :: FunDecl.allTokens methods ++ [Symbol.rightBrace.token]

/-- The tokens of statements one after another. -/
def Stmt.allTokens : List Stmt → List Token
  | [] => []
  | first :: rest => first.tokens ++ Stmt.allTokens rest

/-- The tokens of a function from its name on. -/
def FunDecl.tokens : FunDecl → List Token
  | ⟨name, params, body⟩ =>
    name.token :: Symbol.leftParen.token :: Name.seriesTokens params ++ Symbol.rightParen.token ::
      Symbol.leftBrace.token :: Stmt.allTokens body ++ [Symbol.rightBrace.token]

/-- The tokens of methods one after another. -/
def FunDecl.allTokens : List FunDecl → List Token
  | [] => []
  | first :: rest => first.tokens ++ FunDecl.allTokens rest

end

attribute [grind =] Stmt.tokens

/-! ## 3. What an expression was read from

Each phrase of the grammar is followed through its derivation.  Nothing is lost of an expression but
lines, ids and spellings. -/

namespace Spot

variable {a b c : Spot} {token : Token} {tokens tokens' : List Token}

/-- From `a` to `b` there are these tokens, but for their lines and spellings. -/
def Yields (a : Spot) (tokens : List Token) (b : Spot) : Prop :=
  ∃ consumed, a.tokens = consumed ++ b.tokens ∧ consumed.map Token.plain = tokens

theorem Yields.nil : a.Yields [] a := ⟨[], rfl, rfl⟩

/-- Two stretches of tokens, one behind the other. -/
theorem Yields.append (h : a.Yields tokens b) (h' : b.Yields tokens' c) :
    a.Yields (tokens ++ tokens') c := by
  obtain ⟨consumed, ha, rfl⟩ := h
  obtain ⟨consumed', hb, rfl⟩ := h'
  exact ⟨consumed ++ consumed', by rw [ha, hb, List.append_assoc], List.map_append⟩

theorem Yields.cons (h : a.Yields [token] b) (h' : b.Yields tokens c) :
    a.Yields (token :: tokens) c := h.append h'

theorem Yields.used (h : a.Yields tokens b) : a.Yields tokens b.used := h

end Spot

namespace Grammar

/-- An operator is written between its operands. -/
theorem tokens_joined (line : Nat) (left right : Expr) :
    (op : Operator) →
      (joined line left right op).tokens = left.tokens ++ op.kind.token :: right.tokens
  | .binary _ => by rw [joined, Expr.tokens, Operator.kind]
  | .logical _ => by rw [joined, Expr.tokens, Operator.kind]

/-- A mark is the token of its symbol. -/
theorem Mark.yields {symbol : Symbol} {a b : Spot} {line : Nat} :
    Mark symbol a line b → a.Yields [symbol.token] b
  | .mk => ⟨[_], rfl, rfl⟩

theorem Word.yields {keyword : Keyword} {a b : Spot} {line : Nat} :
    Word keyword a line b → a.Yields [keyword.token] b
  | .mk => ⟨[_], rfl, rfl⟩

/-- A name is the token of its text. -/
theorem Named.yields {a b : Spot} {name : Name} : Named a name b → a.Yields [name.token] b
  | .mk => ⟨[_], rfl, rfl⟩

/-- A literal is written with the kind that it was read from. -/
theorem kind_of_literal? {kind : Kind} {value : Literal} (h : literal? kind = some value) :
    kind = value.kind := by
  unfold literal? at h
  split at h <;> cases h <;> rfl

theorem kind_of_unaryOp? {kind : Kind} {op : UnaryOp} (h : unaryOp? kind = some op) :
    kind = op.kind := by
  unfold unaryOp? at h
  split at h <;> cases h <;> rfl

/-- An operator is written with the kind that stands for it. -/
theorem Stands.kind_eq {level : Level} {kind : Kind} {op : Operator}
    (h : Stands level kind op) : kind = op.kind := by
  cases h <;> rfl

/-- Of a token that is no name nothing is left but its kind. -/
theorem yields_of_kind {token : Token} {kind : Kind} {tokens : List Token} {id : Id}
    (h : token.kind = kind) (fixed : kind ≠ .identifier) :
    Spot.Yields ⟨token :: tokens, id⟩ [kind.token] ⟨tokens, id⟩ := by
  subst h
  refine ⟨[token], rfl, congrArg (fun token => [token]) ?_⟩
  unfold Token.plain Kind.token
  cases hkind : token.kind with
  | identifier => exact absurd hkind fixed
  | _ => rfl

theorem Value.yields {a b : Spot} {value : Literal} :
    Value a value b → a.Yields [value.kind.token] b
  | .mk stands => yields_of_kind (kind_of_literal? stands) <| by
    rcases value with _ | (_ | _) | _ | _ <;> exact Kind.noConfusion

theorem Before.yields {a b : Spot} {op : UnaryOp} {line : Nat} :
    Before a op line b → a.Yields [op.kind.token] b
  | .mk stands => yields_of_kind (kind_of_unaryOp? stands) <| by
    cases op <;> exact Kind.noConfusion

theorem Between.yields {level : Level} {a b : Spot} {op : Operator} {line : Nat} :
    Between level a op line b → a.Yields [op.kind.token] b
  | .mk stands => yields_of_kind stands.kind_eq <| by
    rcases op with op | op <;> cases op <;> exact Kind.noConfusion

mutual

/-- An expression is written out as the tokens it was read from. -/
theorem Expression.yields {a b : Spot} {e : Expr} : Expression a e b → a.Yields e.tokens b
  | .ladder of => of.yields
  | .assign target equal value => by
    rw [Expr.tokens]
    exact target.yields.used.cons (equal.yields.cons value.yields.used)
  | .set object dot property equal value => by
    rw [Expr.tokens]
    exact object.yields.append
      (dot.yields.cons (property.yields.cons (equal.yields.cons value.yields)))

/-- The operands of a chain, with the operators between. -/
theorem Ladder.yields {level : Level} {a b : Spot} {e : Expr} :
    Ladder level a e b → a.Yields e.tokens b
  | .operand of => of.yields
  | .join left operator right => by
    rw [tokens_joined]
    exact left.yields.append (operator.yields.cons right.yields)

theorem Operand.yields {level : Level} {a b : Spot} {e : Expr} :
    Operand level a e b → a.Yields e.tokens b
  | .ladder _ of => of.yields
  | .unary of => of.yields

theorem Unary.yields {a b : Spot} {e : Expr} : Unary a e b → a.Yields e.tokens b
  | .op operator operand => by
    rw [Expr.tokens]
    exact operator.yields.cons operand.yields
  | .call of => of.yields

/-- A callee, with what follows it. -/
theorem Call.yields {a b : Spot} {e : Expr} : Call a e b → a.Yields e.tokens b
  | .primary of => of.yields
  | .call callee left arguments _ right => by
    rw [Expr.tokens, List.append_assoc]
    exact callee.yields.append (left.yields.cons (arguments.yields.append right.yields))
  | .get object dot property => by
    rw [Expr.tokens]
    exact object.yields.append (dot.yields.cons property.yields)

/-- One case for each kind of primary expression. -/
theorem Primary.yields {a b : Spot} {e : Expr} : Primary a e b → a.Yields e.tokens b
  | .literal of => by
    rw [Expr.tokens]
    exact of.yields
  | .named of => by
    rw [Expr.tokens]
    exact of.yields.used
  | .this word => by
    rw [Expr.tokens]
    exact word.yields.used
  | .super word dot method => by
    rw [Expr.tokens]
    exact word.yields.cons (dot.yields.cons method.yields.used)
  | .grouping left inner right => by
    rw [Expr.tokens]
    exact left.yields.cons (inner.yields.append right.yields)
  | .list left elements right => by
    rw [Expr.tokens]
    exact left.yields.cons (elements.yields.append right.yields)

theorem Series.yields {a b : Spot} {es : List Expr} :
    Series a es b → a.Yields (Expr.seriesTokens es) b
  | .none => .nil
  | .some of => of.yields

/-- Items with commas between. -/
theorem Items.yields {a b : Spot} {es : List Expr} :
    Items a es b → a.Yields (Expr.seriesTokens es) b
  | .last item => by
    rw [Expr.seriesTokens, Expr.moreTokens, List.append_nil]
    exact item.yields
  | .more item comma rest => by
    have later := comma.yields.cons rest.yields
    rw [Expr.seriesTokens]
    cases rest with
    | last => exact item.yields.append later
    | more => exact item.yields.append later

end

end Grammar

/-! ## 4. What is read from the tokens of a tree

A statement need not be written as it was read, since a `for` loop is not.  What is shown instead is
that reading what is written gives the statement back. -/

/-- A phrase whose tokens are `tokens` is moved to these tokens in front of another rest. -/
def Move.writing (a b : Spot) (rest : List Token) (id : Id) : Move .shape where
  token := Token.plain
  id i := i - a.nextId + id
  kept := b.size
  rest := rest
  lo := a.nextId
  hi := b.nextId
  kind _ := rfl
  name t h := by rw [Token.plain, h, Kind.text?, Option.getD_none]
  lines _ := trivial
  step i h := by
    change i + 1 - a.nextId + id = i - a.nextId + id + 1
    omega
  ids _ _ _ := trivial

/-- A phrase that is moved begins with its own tokens. -/
theorem Move.writing_spot {a b : Spot} {tokens rest : List Token} {id : Id}
    (written : a.Yields tokens b) : (Move.writing a b rest id).spot a = ⟨tokens ++ rest, id⟩ := by
  obtain ⟨consumed, found, rfl⟩ := written
  have length : a.size - b.size = consumed.length := by
    rw [Spot.size, found, List.length_append, Spot.size, Nat.add_sub_cancel]
  change Spot.mk ((a.tokens.take (a.size - b.size)).map Token.plain ++ rest)
    (a.nextId - a.nextId + id) = _
  rw [length, found, List.take_left, Nat.sub_self, Nat.zero_add]

/-- What is read from the tokens of a tree, whatever follows them, is a tree that is alike. -/
def ReadsBack {α : Type} (Phrase : Spot → α → Spot → Prop) (tokens : α → List Token)
    (Alike : α → α → Prop) (tree : α) : Prop :=
  ∀ rest id, ∃ tree' id', Phrase ⟨tokens tree ++ rest, id⟩ tree' ⟨rest, id'⟩ ∧ Alike tree tree'

namespace Grammar

/-- A unary expression is an expression, by way of all levels. -/
theorem Unary.expression {a b : Spot} {e : Expr} (h : Unary a e b) : Expression a e b :=
  .ladder (.operand (.ladder .or (.operand (.ladder .and (.operand (.ladder .equality (.operand
    (.ladder .comparison (.operand (.ladder .sum (.operand (.unary h))))))))))))

/-- What has been read as an expression is read as one from its tokens, by moving its derivation to
them. -/
theorem Expression.readsBack {a b : Spot} {e : Expr} (h : Expression a e b) :
    ReadsBack Expression Expr.tokens (Expr.Alike .shape) e := by
  intro rest id
  obtain ⟨e', h', like⟩ := h.move (Move.writing a b rest id)
    ⟨Nat.le_refl _, Nat.le_refl _, Nat.le_refl _⟩
  rw [Move.writing_spot h.yields, Move.spot_of_size_eq _ rfl] at h'
  exact ⟨e', _, h', like⟩

theorem Named.of_token (name : Name) (rest : List Token) (id : Id) :
    Named ⟨name.token :: rest, id⟩ ⟨name.text, 0⟩ ⟨rest, id⟩ := .mk

theorem alike_of_token (name : Name) : name.Alike .shape ⟨name.text, 0⟩ := ⟨rfl, trivial⟩

/-- A condition that is missing is `true`, which is written out. -/
theorem Test.readsBack {a b : Spot} {e : Expr} :
    Test a e b → ReadsBack Expression Expr.tokens (Expr.Alike .shape) e
  | .none => fun _ id =>
    ⟨_, id, (Unary.call (.primary (.literal (.mk rfl)))).expression, .literal _⟩
  | .some of => of.readsBack

theorem Optional.readsBack {a b : Spot} {value : Option Expr} :
    Optional a value b →
      ReadsBack Optional Expr.optionalTokens (Option.Rel (Expr.Alike .shape)) value
  | .none => fun _ id => ⟨_, id, .none, .none⟩
  | .some of => fun rest id => by
    obtain ⟨e', id', of', like⟩ := of.readsBack rest id
    exact ⟨_, id', .some of', .some like⟩

theorem Optional.readsBack_some {a b : Spot} {value : Option Expr} :
    Optional a value b → ∀ e ∈ value, ReadsBack Expression Expr.tokens (Expr.Alike .shape) e
  | .none => nofun
  | .some of => by
    rintro _ ⟨⟩
    exact of.readsBack

/-- An initial value that is missing is `nil` and not written out. -/
theorem Initial.readsBack {a b : Spot} {value : Option Expr} :
    Initial a value b →
      ReadsBack Initial Expr.initialTokens (Option.Rel (Expr.Alike .shape)) value
  | .none => fun _ id => ⟨_, id, .none, .none⟩
  | .some _ of => fun rest id => by
    obtain ⟨e', id', of', like⟩ := of.readsBack rest id
    exact ⟨_, id', .some .mk of', .some like⟩

/-- A superclass is written as its name. -/
theorem Superclass.readsBack {a b : Spot} {superclass : Option Variable} :
    Superclass a superclass b →
      ReadsBack Superclass Variable.superclassTokens (Option.Rel (Variable.Alike .shape)) superclass
  | .none => fun _ id => ⟨_, id, .none, .none⟩
  | .some _ of => fun rest id =>
    ⟨_, id + 1, .some .mk (.of_token _ rest id), .some ⟨trivial, alike_of_token _⟩⟩

/-- The names of a series, and their tokens. -/
theorem Names.readsBack {a b : Spot} {names : List Name} :
    Names a names b →
      ReadsBack Names Name.seriesTokens (List.Forall₂ (Name.Alike .shape)) names
  | .last _ => fun rest id => ⟨_, id, .last (.of_token _ rest id), .cons (alike_of_token _) .nil⟩
  | .more _ _ of => fun rest id => by
    obtain ⟨names', id', of', likes⟩ := of.readsBack rest id
    refine ⟨_, id', ?_, .cons (alike_of_token _) likes⟩
    cases of <;> exact .more (.of_token _ _ id) .mk of'

theorem Parameters.readsBack {a b : Spot} {names : List Name} :
    Parameters a names b →
      ReadsBack Parameters Name.seriesTokens (List.Forall₂ (Name.Alike .shape)) names
  | .none => fun _ id => ⟨_, id, .none, .nil⟩
  | .some of few => fun rest id => by
    obtain ⟨names', id', of', likes⟩ := of.readsBack rest id
    exact ⟨_, id', .some of' (likes.length_eq ▸ few), likes⟩

/-- A declaration of a variable is written as it was read. -/
theorem Var.readsBack {a b : Spot} {s : Stmt} :
    Var a s b → ReadsBack Var Stmt.tokens (Stmt.Alike .shape) s
  | .mk _ _ initial _ => fun rest id => by
    obtain ⟨value', id', initial', likes⟩ := initial.readsBack (Symbol.semicolon.token :: rest) id
    refine ⟨_, id', ?_, .varDecl (alike_of_token _) likes⟩
    simp only [Stmt.tokens, List.cons_append, List.append_assoc, List.nil_append]
    exact .mk .mk (.of_token _ _ id) initial' .mk

theorem Evaluation.readsBack {a b : Spot} {s : Stmt} :
    Evaluation a s b → ReadsBack Evaluation Stmt.tokens (Stmt.Alike .shape) s
  | .mk value _ => fun rest id => by
    obtain ⟨e', id', value', like⟩ := value.readsBack (Symbol.semicolon.token :: rest) id
    refine ⟨_, id', ?_, .expression like⟩
    simp only [Stmt.tokens, List.append_assoc, List.cons_append, List.nil_append]
    exact .mk value' .mk

/-- What a loop begins with can stand as a declaration. -/
theorem First.readsBack {a b : Spot} {first : Option Stmt} :
    First a first b →
      ∀ s ∈ first, ReadsBack Declaration Stmt.tokens (Stmt.Alike .shape) s
  | .none _ => nofun
  | .varDecl of => by
    rintro _ ⟨⟩ rest id
    obtain ⟨s', id', of', like⟩ := of.readsBack rest id
    exact ⟨s', id', .varDecl of', like⟩
  | .expression of => by
    rintro _ ⟨⟩ rest id
    obtain ⟨s', id', of', like⟩ := of.readsBack rest id
    exact ⟨s', id', .statement (.evaluation of'), like⟩

/-! A `for` loop is read back part by part. -/

section Loops

variable {closed : Bool} {s t : Stmt} {e : Expr}

/-- A `while` loop is read back if its parts are, and is as closed as its body. -/
theorem readsBack_whileLoop (condition : ReadsBack Expression Expr.tokens (Expr.Alike .shape) e)
    (body : ReadsBack (Statement closed) Stmt.tokens (Stmt.Alike .shape) s) :
    ReadsBack (Statement closed) Stmt.tokens (Stmt.Alike .shape) (.whileLoop e s) := by
  intro rest id
  obtain ⟨e', id', condition', like⟩ :=
    condition (Symbol.rightParen.token :: (s.tokens ++ rest)) id
  obtain ⟨s', id'', body', like'⟩ := body rest id'
  refine ⟨_, id'', ?_, .whileLoop like like'⟩
  simp only [Stmt.tokens, List.cons_append, List.append_assoc]
  exact .whileLoop .mk .mk condition' .mk body'

/-- A block of two statements, which a `for` loop with an initializer becomes. -/
theorem readsBack_pair (first : ReadsBack Declaration Stmt.tokens (Stmt.Alike .shape) s)
    (second : ReadsBack Declaration Stmt.tokens (Stmt.Alike .shape) t) :
    ReadsBack (Statement closed) Stmt.tokens (Stmt.Alike .shape) (.block [s, t]) := by
  intro rest id
  obtain ⟨s', id', first', like⟩ := first (t.tokens ++ Symbol.rightBrace.token :: rest) id
  obtain ⟨t', id'', second', like'⟩ := second (Symbol.rightBrace.token :: rest) id'
  refine ⟨_, id'', ?_, .block (.cons like (.cons like' .nil))⟩
  simp only [Stmt.tokens, Stmt.allTokens, List.cons_append, List.append_assoc, List.nil_append]
  exact .block (.mk .mk (.more first' (.more second' .none)) .mk)

/-- Where a statement is read back, a declaration is too. -/
theorem readsBack_declaration
    (h : ReadsBack (Statement closed) Stmt.tokens (Stmt.Alike .shape) s) :
    ReadsBack Declaration Stmt.tokens (Stmt.Alike .shape) s := by
  intro rest id
  obtain ⟨s', id', h', like⟩ := h rest id
  cases closed with
  | false => exact ⟨s', id', .statement h', like⟩
  | true => exact ⟨s', id', .statement h'.relax, like⟩

/-- An expression as a statement, which the increment of a `for` loop becomes. -/
theorem readsBack_evaluation (h : ReadsBack Expression Expr.tokens (Expr.Alike .shape) e) :
    ReadsBack Declaration Stmt.tokens (Stmt.Alike .shape) (.expression e) := by
  intro rest id
  obtain ⟨e', id', h', like⟩ := h (Symbol.semicolon.token :: rest) id
  refine ⟨_, id', ?_, .expression like⟩
  simp only [Stmt.tokens, List.append_assoc, List.cons_append, List.nil_append]
  exact .statement (.evaluation (.mk h' .mk))

/-- A `for` loop is written as the block and the `while` loop that it has become, and read back as
these. -/
theorem readsBack_loop {first : Option Stmt} {step : Option Expr}
    (initializer : ∀ t ∈ first, ReadsBack Declaration Stmt.tokens (Stmt.Alike .shape) t)
    (condition : ReadsBack Expression Expr.tokens (Expr.Alike .shape) e)
    (increment : ∀ e ∈ step, ReadsBack Expression Expr.tokens (Expr.Alike .shape) e)
    (body : ReadsBack (Statement closed) Stmt.tokens (Stmt.Alike .shape) s) :
    ReadsBack (Statement closed) Stmt.tokens (Stmt.Alike .shape)
      (loop first e step s) := by
  cases step with
  | none =>
    have loop := readsBack_whileLoop condition body
    cases first with
    | none => exact loop
    | some t => exact readsBack_pair (initializer t rfl) (readsBack_declaration loop)
  | some e =>
    have turn : ReadsBack (Statement closed) Stmt.tokens (Stmt.Alike .shape)
        (.block [s, .expression e]) :=
      readsBack_pair (readsBack_declaration body) (readsBack_evaluation (increment e rfl))
    have loop := readsBack_whileLoop condition turn
    cases first with
    | none => exact loop
    | some t => exact readsBack_pair (initializer t rfl) (readsBack_declaration loop)

end Loops

mutual

/-- A declaration begins with its word, also where it is written out. -/
theorem Declaration.readsBack {a b : Spot} {s : Stmt} :
    Declaration a s b → ReadsBack Declaration Stmt.tokens (Stmt.Alike .shape) s
  | .classDecl _ _ extended _ body _ => fun rest id => by
    obtain ⟨superclass', id', extended', likeSuperclass⟩ := extended.readsBack _ id
    obtain ⟨methods', id'', body', likes⟩ := body.readsBack (Symbol.rightBrace.token :: rest) id'
    refine ⟨_, id'', ?_, .classDecl (alike_of_token _) likeSuperclass likes⟩
    simp only [Stmt.tokens, List.cons_append, List.append_assoc, List.nil_append]
    exact .classDecl .mk (.of_token _ _ id) extended' .mk body' .mk
  | .funDecl _ of => fun rest id => by
    obtain ⟨declaration', id', of', like⟩ := of.readsBack rest id
    refine ⟨_, id', ?_, .funDecl like⟩
    simp only [Stmt.tokens, List.cons_append]
    exact .funDecl .mk of'
  | .varDecl of => fun rest id => by
    obtain ⟨s', id', of', like⟩ := of.readsBack rest id
    exact ⟨s', id', .varDecl of', like⟩
  | .statement of => readsBack_declaration of.readsBack

theorem Declarations.readsBack {a b : Spot} {body : List Stmt} :
    Declarations a body b → ReadsBack Declarations Stmt.allTokens (Stmt.AlikeAll .shape) body
  | .none => fun _ id => ⟨[], id, .none, .nil⟩
  | .more first later => fun rest id => by
    obtain ⟨s', id', first', like⟩ := first.readsBack (Stmt.allTokens _ ++ rest) id
    obtain ⟨body', id'', later', likes⟩ := later.readsBack rest id'
    refine ⟨_, id'', ?_, .cons like likes⟩
    simp only [Stmt.allTokens, List.append_assoc]
    exact .more first' later'

theorem Block.readsBack {a b : Spot} {body : List Stmt} :
    Block a body b → ReadsBack Block (fun body => Symbol.leftBrace.token :: Stmt.allTokens body ++
      [Symbol.rightBrace.token]) (Stmt.AlikeAll .shape) body
  | .mk _ of _ => fun rest id => by
    obtain ⟨body', id', of', likes⟩ := of.readsBack (Symbol.rightBrace.token :: rest) id
    refine ⟨_, id', ?_, likes⟩
    simp only [List.cons_append, List.append_assoc, List.nil_append]
    exact .mk .mk of' .mk

/-- A function is read back from its name, its parameters and its body. -/
theorem Function.readsBack {a b : Spot} {declaration : FunDecl} :
    Function a declaration b →
      ReadsBack Function FunDecl.tokens (FunDecl.Alike .shape) declaration
  | .mk _ _ parameters _ block => fun rest id => by
    obtain ⟨params', id', parameters', names⟩ := parameters.readsBack _ id
    obtain ⟨body', id'', block', likes⟩ := block.readsBack rest id'
    refine ⟨_, id'', ?_, .mk (alike_of_token _) names likes⟩
    simp only [FunDecl.tokens, List.cons_append, List.append_assoc, List.nil_append] at block' ⊢
    exact .mk (.of_token _ _ id) .mk parameters' .mk block'

theorem Methods.readsBack {a b : Spot} {methods : List FunDecl} :
    Methods a methods b →
      ReadsBack Methods FunDecl.allTokens (FunDecl.AlikeAll .shape) methods
  | .none => fun _ id => ⟨[], id, .none, .nil⟩
  | .more first later => fun rest id => by
    obtain ⟨method', id', first', like⟩ := first.readsBack (FunDecl.allTokens _ ++ rest) id
    obtain ⟨methods', id'', later', likes⟩ := later.readsBack rest id'
    refine ⟨_, id'', ?_, .cons like likes⟩
    simp only [FunDecl.allTokens, List.append_assoc]
    exact .more first' later'

/-- One case for each kind of statement.  A statement that is closed is read back as a closed
one. -/
theorem Statement.readsBack {closed : Bool} {a b : Spot} {s : Stmt} :
    Statement closed a s b → ReadsBack (Statement closed) Stmt.tokens (Stmt.Alike .shape) s
  | .ifThen _ _ condition _ branch => fun rest id => by
    obtain ⟨e', id', condition', likeCondition⟩ := condition.readsBack _ id
    obtain ⟨s', id'', branch', like⟩ := branch.readsBack rest id'
    refine ⟨_, id'', ?_, .ifThen likeCondition like⟩
    simp only [Stmt.tokens, List.cons_append, List.append_assoc]
    exact .ifThen .mk .mk condition' .mk branch'
  | .ifElse _ _ condition _ branch _ branch' => fun rest id => by
    obtain ⟨e', id', condition', likeCondition⟩ := condition.readsBack _ id
    obtain ⟨s', id'', then', likeThen⟩ := branch.readsBack _ id'
    obtain ⟨t', id''', else', likeElse⟩ := branch'.readsBack rest id''
    refine ⟨_, id''', ?_, .ifElse likeCondition likeThen likeElse⟩
    simp only [Stmt.tokens, List.cons_append, List.append_assoc]
    exact .ifElse .mk .mk condition' .mk then' .mk else'
  | .print _ value _ => fun rest id => by
    obtain ⟨e', id', value', like⟩ := value.readsBack (Symbol.semicolon.token :: rest) id
    refine ⟨.print 0 e', id', ?_, .print trivial like⟩
    simp only [Stmt.tokens, List.cons_append, List.append_assoc, List.nil_append]
    exact .print .mk value' .mk
  | .ret _ of _ => fun rest id => by
    obtain ⟨value', id', of', likes⟩ := of.readsBack (Symbol.semicolon.token :: rest) id
    refine ⟨.ret 0 value', id', ?_, .ret trivial likes⟩
    simp only [Stmt.tokens, List.cons_append, List.append_assoc, List.nil_append]
    exact .ret .mk of' .mk
  | .block of => fun rest id => by
    obtain ⟨body', id', of', likes⟩ := of.readsBack rest id
    refine ⟨_, id', ?_, .block likes⟩
    rw [Stmt.tokens]
    exact .block of'
  | .whileLoop _ _ condition _ body => readsBack_whileLoop condition.readsBack body.readsBack
  | .forLoop _ _ initializer condition _ increment _ body =>
    readsBack_loop initializer.readsBack condition.readsBack increment.readsBack_some
      body.readsBack
  | .forEach _ _ _ _ _ iterable _ body => fun rest id => by
    obtain ⟨e', id', iterable', likeIterable⟩ := iterable.readsBack _ id
    obtain ⟨s', id'', body', like⟩ := body.readsBack rest id'
    refine ⟨.forEach 0 _ e' s', id'', ?_, .forEach trivial (alike_of_token _) likeIterable like⟩
    simp only [Stmt.tokens, List.cons_append, List.append_assoc]
    exact .forEach .mk .mk (.some .mk) (.of_token _ _ id) .mk iterable' .mk body'
  | .evaluation of => fun rest id => by
    obtain ⟨s', id', of', like⟩ := of.readsBack rest id
    exact ⟨s', id', .evaluation of', like⟩

end

end Grammar

end Lox
