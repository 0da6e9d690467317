/-
# How far phrases go, and what they begin with

A phrase takes at least one token, save those that may be absent (§1); what it can begin with tells
it from the marks that may stand in its place (§2).
-/
import Lox.Proofs.Syntax.Derivation

namespace Lox

/-! ## 1. Sizes

Phrases go forward: the number of tokens ahead never grows, nor does the next id shrink.  This
bounds the fuel that reading them takes. -/

namespace Spot

/-- The number of tokens to be read. -/
def size (a : Spot) : Nat := a.tokens.length

/-- The kind of the next token. -/
def kind? (a : Spot) : Option Kind := a.tokens.head?.map Token.kind

@[simp]
theorem size_used (a : Spot) : a.used.size = a.size := rfl

@[simp]
theorem nextId_used (a : Spot) : a.used.nextId = a.nextId + 1 := rfl

end Spot

namespace Grammar

variable {a b : Spot}

/-- A mark is one token, and takes no id. -/
theorem Mark.extent {symbol : Symbol} {line : Nat} :
    Mark symbol a line b → a.size = b.size + 1 ∧ a.nextId = b.nextId
  | .mk => ⟨rfl, rfl⟩

/-- A mark is recognized by the kind of its token. -/
theorem Mark.kind? {symbol : Symbol} {line : Nat} :
    Mark symbol a line b → a.kind? = some (.symbol symbol)
  | .mk => rfl

theorem Word.extent {keyword : Keyword} {line : Nat} :
    Word keyword a line b → a.size = b.size + 1 ∧ a.nextId = b.nextId
  | .mk => ⟨rfl, rfl⟩

theorem Word.kind? {keyword : Keyword} {line : Nat} :
    Word keyword a line b → a.kind? = some (.keyword keyword)
  | .mk => rfl

theorem Named.extent {name : Name} : Named a name b → a.size = b.size + 1 ∧ a.nextId = b.nextId
  | .mk => ⟨rfl, rfl⟩

/-- A name is recognized by the kind of its token. -/
theorem Named.kind? {name : Name} : Named a name b → a.kind? = some .identifier
  | .mk => rfl

/-- A literal is one token, and takes no id. -/
theorem Value.extent {value : Literal} : Value a value b → a.size = b.size + 1 ∧ a.nextId = b.nextId
  | .mk _ => ⟨rfl, rfl⟩

theorem Before.extent {op : UnaryOp} {line : Nat} :
    Before a op line b → a.size = b.size + 1 ∧ a.nextId = b.nextId
  | .mk _ => ⟨rfl, rfl⟩

theorem Between.extent {level : Level} {op : Operator} {line : Nat} :
    Between level a op line b → a.size = b.size + 1 ∧ a.nextId = b.nextId
  | .mk _ => ⟨rfl, rfl⟩

mutual

/-- An expression takes tokens, and may take ids.  By induction, with the phrases that it is made
of. -/
theorem Expression.extent {a b : Spot} {e : Expr} :
    Expression a e b → b.size < a.size ∧ a.nextId ≤ b.nextId
  | .ladder of => of.extent
  | .assign target equal value => by
    have := target.extent
    have := equal.extent
    have := value.extent
    simp only [Spot.size_used, Spot.nextId_used] at *
    omega
  | .set object dot property equal value => by
    have := object.extent
    have := dot.extent
    have := property.extent
    have := equal.extent
    have := value.extent
    omega

theorem Ladder.extent {level : Level} {a b : Spot} {e : Expr} :
    Ladder level a e b → b.size < a.size ∧ a.nextId ≤ b.nextId
  | .operand of => of.extent
  | .join left operator right => by
    have := left.extent
    have := operator.extent
    have := right.extent
    omega

theorem Operand.extent {level : Level} {a b : Spot} {e : Expr} :
    Operand level a e b → b.size < a.size ∧ a.nextId ≤ b.nextId
  | .ladder _ of => of.extent
  | .unary of => of.extent

theorem Unary.extent {a b : Spot} {e : Expr} : Unary a e b → b.size < a.size ∧ a.nextId ≤ b.nextId
  | .op operator operand => by
    have := operator.extent
    have := operand.extent
    omega
  | .call of => of.extent

/-- A callee and what follows it, each of which takes tokens. -/
theorem Call.extent {a b : Spot} {e : Expr} : Call a e b → b.size < a.size ∧ a.nextId ≤ b.nextId
  | .primary of => of.extent
  | .call callee left arguments _ right => by
    have := callee.extent
    have := left.extent
    have := arguments.extent
    have := right.extent
    omega
  | .get object dot property => by
    have := object.extent
    have := dot.extent
    have := property.extent
    omega

theorem Primary.extent {a b : Spot} {e : Expr} :
    Primary a e b → b.size < a.size ∧ a.nextId ≤ b.nextId
  | .literal of => by
    have := of.extent
    omega
  | .named of => by
    have := of.extent
    simp only [Spot.size_used, Spot.nextId_used]
    omega
  | .this word => by
    have := word.extent
    simp only [Spot.size_used, Spot.nextId_used]
    omega
  | .super word dot method => by
    have := word.extent
    have := dot.extent
    have := method.extent
    simp only [Spot.size_used, Spot.nextId_used]
    omega
  | .grouping left inner right => by
    have := left.extent
    have := inner.extent
    have := right.extent
    omega
  | .list left elements right => by
    have := left.extent
    have := elements.extent
    have := right.extent
    omega

/-- A series may be empty, and then takes nothing. -/
theorem Series.extent {a b : Spot} {es : List Expr} :
    Series a es b → b.size ≤ a.size ∧ a.nextId ≤ b.nextId
  | .none => ⟨Nat.le_refl _, Nat.le_refl _⟩
  | .some of => of.extent.imp_left Nat.le_of_lt

theorem Items.extent {a b : Spot} {es : List Expr} :
    Items a es b → b.size < a.size ∧ a.nextId ≤ b.nextId
  | .last item => item.extent
  | .more item comma rest => by
    have := item.extent
    have := comma.extent
    have := rest.extent
    omega

end

/-- An initializer may be absent. -/
theorem Initial.extent {a b : Spot} {value : Option Expr} :
    Initial a value b → b.size ≤ a.size ∧ a.nextId ≤ b.nextId
  | .none => ⟨Nat.le_refl _, Nat.le_refl _⟩
  | .some equal of => by
    have := equal.extent
    have := of.extent
    omega

theorem Optional.extent {a b : Spot} {value : Option Expr} :
    Optional a value b → b.size ≤ a.size ∧ a.nextId ≤ b.nextId
  | .none => ⟨Nat.le_refl _, Nat.le_refl _⟩
  | .some of => of.extent.imp_left Nat.le_of_lt

theorem Names.extent {a b : Spot} {names : List Name} :
    Names a names b → b.size < a.size ∧ a.nextId ≤ b.nextId
  | .last item => by
    have := item.extent
    omega
  | .more item comma rest => by
    have := item.extent
    have := comma.extent
    have := rest.extent
    omega

theorem Parameters.extent {a b : Spot} {names : List Name} :
    Parameters a names b → b.size ≤ a.size ∧ a.nextId ≤ b.nextId
  | .none => ⟨Nat.le_refl _, Nat.le_refl _⟩
  | .some of _ => of.extent.imp_left Nat.le_of_lt

/-- A superclass may be absent. -/
theorem Superclass.extent {a b : Spot} {superclass : Option Variable} :
    Superclass a superclass b → b.size ≤ a.size ∧ a.nextId ≤ b.nextId
  | .none => ⟨Nat.le_refl _, Nat.le_refl _⟩
  | .some less of => by
    have := less.extent
    have := of.extent
    simp only [Spot.size_used, Spot.nextId_used]
    omega

theorem Var.extent {a b : Spot} {s : Stmt} : Var a s b → b.size < a.size ∧ a.nextId ≤ b.nextId
  | .mk word of initial semicolon => by
    have := word.extent
    have := of.extent
    have := initial.extent
    have := semicolon.extent
    omega

theorem Evaluation.extent {a b : Spot} {s : Stmt} :
    Evaluation a s b → b.size < a.size ∧ a.nextId ≤ b.nextId
  | .mk value semicolon => by
    have := value.extent
    have := semicolon.extent
    omega

theorem OptionalVar.extent {a b : Spot} :
    OptionalVar a b → b.size ≤ a.size ∧ a.nextId ≤ b.nextId
  | .none => ⟨Nat.le_refl _, Nat.le_refl _⟩
  | .some word => by
    have := word.extent
    omega

/-- The first clause of a `for` loop takes at least its semicolon. -/
theorem First.extent {a b : Spot} {first : Option Stmt} :
    First a first b → b.size < a.size ∧ a.nextId ≤ b.nextId
  | .none semicolon => by
    have := semicolon.extent
    omega
  | .varDecl of => of.extent
  | .expression of => of.extent

theorem Test.extent {a b : Spot} {e : Expr} : Test a e b → b.size ≤ a.size ∧ a.nextId ≤ b.nextId
  | .none => ⟨Nat.le_refl _, Nat.le_refl _⟩
  | .some of => of.extent.imp_left Nat.le_of_lt

/-- The head of an `if` or a `while` loop. -/
theorem extent_test {keyword : Keyword} {a b c d f : Spot} {line line' line'' : Nat} {e : Expr}
    (word : Word keyword a line b) (left : Mark .leftParen b line' c) (condition : Expression c e d)
    (right : Mark .rightParen d line'' f) : f.size < a.size ∧ a.nextId ≤ f.nextId := by
  have := word.extent
  have := left.extent
  have := condition.extent
  have := right.extent
  omega

/-- The head of a `for` loop. -/
theorem extent_clauses {a b c d f g h i : Spot} {line line' line'' line''' : Nat}
    {first : Option Stmt} {e : Expr} {step : Option Expr} (word : Word .for a line b)
    (left : Mark .leftParen b line' c) (initializer : First c first d) (condition : Test d e f)
    (semicolon : Mark .semicolon f line'' g) (increment : Optional g step h)
    (right : Mark .rightParen h line''' i) : i.size < a.size ∧ a.nextId ≤ i.nextId := by
  have := word.extent
  have := left.extent
  have := initializer.extent
  have := condition.extent
  have := semicolon.extent
  have := increment.extent
  have := right.extent
  omega

/-- The head of a `foreach` loop. -/
theorem extent_items {a b c d f g h i : Spot} {line line' line'' line''' : Nat} {name : Name}
    {e : Expr} (word : Word .foreach a line b) (left : Mark .leftParen b line' c)
    (declared : OptionalVar c d) (item : Named d name f) (semicolon : Mark .semicolon f line'' g)
    (iterable : Expression g e h) (right : Mark .rightParen h line''' i) :
    i.size < a.size ∧ a.nextId ≤ i.nextId := by
  have := word.extent
  have := left.extent
  have := declared.extent
  have := item.extent
  have := semicolon.extent
  have := iterable.extent
  have := right.extent
  omega

mutual

/-- A declaration takes tokens. -/
theorem Declaration.extent {a b : Spot} {s : Stmt} :
    Declaration a s b → b.size < a.size ∧ a.nextId ≤ b.nextId
  | .classDecl word of extended left body right => by
    have := word.extent
    have := of.extent
    have := extended.extent
    have := left.extent
    have := body.extent
    have := right.extent
    omega
  | .funDecl word of => by
    have := word.extent
    have := of.extent
    omega
  | .varDecl of => of.extent
  | .statement of => of.extent

/-- A list of declarations may be empty. -/
theorem Declarations.extent {a b : Spot} {body : List Stmt} :
    Declarations a body b → b.size ≤ a.size ∧ a.nextId ≤ b.nextId
  | .none => ⟨Nat.le_refl _, Nat.le_refl _⟩
  | .more first rest => by
    have := first.extent
    have := rest.extent
    omega

theorem Block.extent {a b : Spot} {body : List Stmt} :
    Block a body b → b.size < a.size ∧ a.nextId ≤ b.nextId
  | .mk left of right => by
    have := left.extent
    have := of.extent
    have := right.extent
    omega

/-- A function takes at least its name, its parentheses and its braces. -/
theorem Function.extent {a b : Spot} {declaration : FunDecl} :
    Function a declaration b → b.size < a.size ∧ a.nextId ≤ b.nextId
  | .mk of left parameters right block => by
    have := of.extent
    have := left.extent
    have := parameters.extent
    have := right.extent
    have := block.extent
    omega

theorem Methods.extent {a b : Spot} {methods : List FunDecl} :
    Methods a methods b → b.size ≤ a.size ∧ a.nextId ≤ b.nextId
  | .none => ⟨Nat.le_refl _, Nat.le_refl _⟩
  | .more first rest => by
    have := first.extent
    have := rest.extent
    omega

/-- A statement takes tokens, of whichever kind it is. -/
theorem Statement.extent {closed : Bool} {a b : Spot} {s : Stmt} :
    Statement closed a s b → b.size < a.size ∧ a.nextId ≤ b.nextId
  | .ifThen word left condition right branch => by
    have := extent_test word left condition right
    have := branch.extent
    omega
  | .ifElse word left condition right branch otherwise branch' => by
    have := extent_test word left condition right
    have := branch.extent
    have := otherwise.extent
    have := branch'.extent
    omega
  | .print word value semicolon => by
    have := word.extent
    have := value.extent
    have := semicolon.extent
    omega
  | .ret word of semicolon => by
    have := word.extent
    have := of.extent
    have := semicolon.extent
    omega
  | .block of => of.extent
  | .whileLoop word left condition right body => by
    have := extent_test word left condition right
    have := body.extent
    omega
  | .forLoop word left initializer condition semicolon increment right body => by
    have := extent_clauses word left initializer condition semicolon increment right
    have := body.extent
    omega
  | .forEach word left declared item semicolon iterable right body => by
    have := extent_items word left declared item semicolon iterable right
    have := body.extent
    omega
  | .evaluation of => of.extent

end

/-! ## 2. First tokens

Where a phrase may be absent, the reader decides by the next token.  So no phrase may begin with the
mark that would stand there instead. -/

/-- Whether an expression that no operator stands in front of can begin with a token. -/
def opensPrimary : Kind → Bool
  | .keyword .false | .keyword .true | .keyword .nil | .keyword .this | .keyword .super => true
  | .symbol .leftParen | .symbol .leftBracket => true
  | .identifier | .string _ | .number _ => true
  | _ => false

/-- Whether an expression can begin with a token. -/
def opens (kind : Kind) : Bool := opensPrimary kind || (unaryOp? kind).isSome

/-- A literal may begin an expression. -/
theorem Value.opens {value : Literal} : Value a value b → ∃ kind ∈ a.kind?, opensPrimary kind
  | .mk stands => by
    refine ⟨_, rfl, ?_⟩
    unfold literal? at stands
    split at stands <;> rename_i kind <;> first | (rw [kind]; rfl) | cases stands

/-- What begins an expression without an operator in front. -/
theorem Primary.opens {e : Expr} : Primary a e b → ∃ kind ∈ a.kind?, opensPrimary kind
  | .literal of => of.opens
  | .named of => ⟨_, of.kind?, rfl⟩
  | .this word => ⟨_, word.kind?, rfl⟩
  | .super word _ _ => ⟨_, word.kind?, rfl⟩
  | .grouping left _ _ => ⟨_, left.kind?, rfl⟩
  | .list left _ _ => ⟨_, left.kind?, rfl⟩

theorem Call.opens {a b : Spot} {e : Expr} : Call a e b → ∃ kind ∈ a.kind?, opensPrimary kind
  | .primary of => of.opens
  | .call callee _ _ _ _ => callee.opens
  | .get object _ _ => object.opens

/-- What begins a primary expression begins an expression. -/
theorem opens_of_primary (h : ∃ kind ∈ a.kind?, opensPrimary kind = true) :
    ∃ kind ∈ a.kind?, opens kind = true := by
  obtain ⟨kind, next, h⟩ := h
  exact ⟨kind, next, by rw [opens, h, Bool.true_or]⟩

/-- An operator in front begins an expression too. -/
theorem Unary.opens {e : Expr} : Unary a e b → ∃ kind ∈ a.kind?, opens kind
  | .op (.mk stands) _ => ⟨_, rfl, by rw [Grammar.opens, stands, Option.isSome_some, Bool.or_true]⟩
  | .call of => opens_of_primary of.opens

mutual

/-- A level begins with its first operand. -/
theorem Ladder.opens {level : Level} {a b : Spot} {e : Expr} :
    Ladder level a e b → ∃ kind ∈ a.kind?, opens kind
  | .operand of => of.opens
  | .join left _ _ => left.opens

theorem Operand.opens {level : Level} {a b : Spot} {e : Expr} :
    Operand level a e b → ∃ kind ∈ a.kind?, opens kind
  | .ladder _ of => of.opens
  | .unary of => of.opens

end

/-- An expression begins with its target, if it is an assignment, or with its first operand. -/
theorem Expression.opens {e : Expr} : Expression a e b → ∃ kind ∈ a.kind?, opens kind
  | .ladder of => of.opens
  | .assign target _ _ => ⟨_, target.kind?, rfl⟩
  | .set object _ _ _ _ => opens_of_primary object.opens

/-- Items are not empty, so they begin with an expression. -/
theorem Items.opens {a b : Spot} {es : List Expr} : Items a es b → ∃ kind ∈ a.kind?, opens kind
  | .last item => item.opens
  | .more item _ _ => item.opens

/-- A phrase does not begin with anything else than what it can begin with. -/
theorem ne_of_begins {test : Kind → Bool} (h : ∃ kind ∈ a.kind?, test kind = true) {kind : Kind}
    (other : test kind = false) : a.kind? ≠ some kind := by
  obtain ⟨kind', next, h⟩ := h
  rintro same
  obtain rfl := Option.some.inj (same.symm.trans next)
  rw [h] at other
  cases other

/-- Whether a statement can begin with a token. -/
def beginsStatement : Kind → Bool
  | .symbol .leftBrace => true
  | .keyword .if | .keyword .print | .keyword .return | .keyword .while | .keyword .for
  | .keyword .foreach => true
  | kind => opens kind

/-- Whether a declaration or statement can begin with a token. -/
def beginsDeclaration : Kind → Bool
  | .keyword .class | .keyword .fun | .keyword .var => true
  | kind => beginsStatement kind

/-- An expression statement begins like its expression. -/
theorem Evaluation.opens {a b : Spot} {s : Stmt} :
    Evaluation a s b → ∃ kind ∈ a.kind?, opens kind
  | .mk value _ => value.opens

/-- A statement begins with its keyword, with a brace or with an expression. -/
theorem Statement.begins {closed : Bool} {a b : Spot} {s : Stmt} :
    Statement closed a s b → ∃ kind ∈ a.kind?, beginsStatement kind
  | .ifThen word _ _ _ _ => ⟨_, word.kind?, rfl⟩
  | .ifElse word _ _ _ _ _ _ => ⟨_, word.kind?, rfl⟩
  | .print word _ _ => ⟨_, word.kind?, rfl⟩
  | .ret word _ _ => ⟨_, word.kind?, rfl⟩
  | .block (.mk left _ _) => ⟨_, left.kind?, rfl⟩
  | .whileLoop word _ _ _ _ => ⟨_, word.kind?, rfl⟩
  | .forLoop word _ _ _ _ _ _ _ => ⟨_, word.kind?, rfl⟩
  | .forEach word _ _ _ _ _ _ _ => ⟨_, word.kind?, rfl⟩
  | .evaluation of => by
    obtain ⟨kind, next, h⟩ := of.opens
    refine ⟨kind, next, ?_⟩
    unfold beginsStatement
    split <;> first | rfl | exact h

/-- A declaration begins with its keyword, or it is a statement. -/
theorem Declaration.begins {a b : Spot} {s : Stmt} :
    Declaration a s b → ∃ kind ∈ a.kind?, beginsDeclaration kind
  | .classDecl word _ _ _ _ _ => ⟨_, word.kind?, rfl⟩
  | .funDecl word _ => ⟨_, word.kind?, rfl⟩
  | .varDecl (.mk word _ _ _) => ⟨_, word.kind?, rfl⟩
  | .statement of => by
    obtain ⟨kind, next, h⟩ := of.begins
    refine ⟨kind, next, ?_⟩
    unfold beginsDeclaration
    split <;> first | rfl | exact h

end Grammar

end Lox
