/-
# The grammar

    program     → declaration*
    declaration → class | fun | var | statement
    statement   → if | while | for | foreach | print | return | block | expression ";"
    expression  → name "=" expression | call "." name "=" expression | ladder
    ladder      → operand | ladder operator operand         six levels, each with its operators
    unary       → ( "!" | "-" ) unary | call
    call        → primary | call "(" series ")" | call "." name

A phrase of the grammar leads from one `Spot` to another: from the tokens that are to be read and
the next id, to the tokens that are left and the next id then.  Each rule says of which phrases its
phrase is made up, and of which tree they are the derivation.  No rule looks at a token behind its
phrase, so what follows a phrase makes no difference to it.

Nothing here refers to the reader.  The grammar has tables of its own for the operators and their
levels (`Stands`, `Tighter`), says itself which tree an operator makes and what a `for` loop is
short for (`joined`, `loop`), and sets the limit of 255 parameters and arguments.  That these are
what the reader goes by is proved where the two are compared.

Which `if` an `else` belongs to is settled without looking ahead: in front of an `else` only a
*closed* statement can stand, one at whose end there is no `if` that could take the `else` as well.
-/
import Lox.Syntax.Basic
import Lox.Token.Basic

namespace Lox

/-- What is to be read, and the id of the next node that takes one. -/
structure Spot where
  tokens : List Token
  nextId : Nat

/-- The spot once a node has taken an id. -/
def Spot.used (a : Spot) : Spot := { a with nextId := a.nextId + 1 }

namespace Grammar

/-! ## 1. Single tokens

A rule that steps over one token leaves the next id as it is. -/

/-- A symbol, and its line. -/
inductive Mark (symbol : Symbol) : Spot → Nat → Spot → Prop
  | mk {lexeme : String} {line : Nat} {rest : List Token} {id : Id} :
      Mark symbol ⟨⟨.symbol symbol, lexeme, line⟩ :: rest, id⟩ line ⟨rest, id⟩

/-- A reserved word, and its line. -/
inductive Word (keyword : Keyword) : Spot → Nat → Spot → Prop
  | mk {lexeme : String} {line : Nat} {rest : List Token} {id : Id} :
      Word keyword ⟨⟨.keyword keyword, lexeme, line⟩ :: rest, id⟩ line ⟨rest, id⟩

/-- A name. -/
inductive Named : Spot → Name → Spot → Prop
  | mk {name : String} {line : Nat} {rest : List Token} {id : Id} :
      Named ⟨⟨.identifier, name, line⟩ :: rest, id⟩ ⟨name, line⟩ ⟨rest, id⟩

/-- The literal that a kind of token stands for. -/
def literal? : Kind → Option Literal
  | .keyword .false => some (.boolean false)
  | .keyword .true => some (.boolean true)
  | .keyword .nil => some .nil
  | .number value => some (.number value)
  | .string contents => some (.string contents)
  | _ => none

/-- The operator of one operand that a kind of token stands for. -/
def unaryOp? : Kind → Option UnaryOp
  | .symbol .bang => some .not
  | .symbol .minus => some .negate
  | _ => none

/-- The operators between two operands: the level of each, and the token that stands for it. -/
inductive Stands : Level → Kind → Operator → Prop
  | or : Stands .or (.keyword .or) (.logical .or)
  | and : Stands .and (.keyword .and) (.logical .and)
  | notEqual : Stands .equality (.symbol .bangEqual) (.binary .notEqual)
  | equal : Stands .equality (.symbol .equalEqual) (.binary .equal)
  | greater : Stands .comparison (.symbol .greater) (.binary .greater)
  | greaterEqual : Stands .comparison (.symbol .greaterEqual) (.binary .greaterEqual)
  | less : Stands .comparison (.symbol .less) (.binary .less)
  | lessEqual : Stands .comparison (.symbol .lessEqual) (.binary .lessEqual)
  | subtract : Stands .sum (.symbol .minus) (.binary .subtract)
  | add : Stands .sum (.symbol .plus) (.binary .add)
  | divide : Stands .product (.symbol .slash) (.binary .divide)
  | multiply : Stands .product (.symbol .star) (.binary .multiply)

/-- The levels of the ladder, each with the next tighter one.  Below `product` there are the unary
expressions. -/
inductive Tighter : Level → Level → Prop
  | or : Tighter .or .and
  | and : Tighter .and .equality
  | equality : Tighter .equality .comparison
  | comparison : Tighter .comparison .sum
  | sum : Tighter .sum .product

/-- A literal. -/
inductive Value : Spot → Literal → Spot → Prop
  | mk {token : Token} {value : Literal} {rest : List Token} {id : Id}
      (stands : literal? token.kind = some value) : Value ⟨token :: rest, id⟩ value ⟨rest, id⟩

/-- An operator in front of its operand, and its line. -/
inductive Before : Spot → UnaryOp → Nat → Spot → Prop
  | mk {token : Token} {op : UnaryOp} {rest : List Token} {id : Id}
      (stands : unaryOp? token.kind = some op) :
      Before ⟨token :: rest, id⟩ op token.line ⟨rest, id⟩

/-- An operator of a level between its operands, and its line. -/
inductive Between (level : Level) : Spot → Operator → Nat → Spot → Prop
  | mk {token : Token} {op : Operator} {rest : List Token} {id : Id}
      (stands : Stands level token.kind op) :
      Between level ⟨token :: rest, id⟩ op token.line ⟨rest, id⟩

/-! ## 2. Expressions

Operands are joined from the left, so that `a - b - c` has `a - b` on its left side; assignments and
unary operators take what is on their right as a whole.  A name uses up an id where it is read, also
one that an assignment follows; the assignment then takes its own id behind the value. -/

/-- The tree that an operator makes of its operands, with the line of the operator. -/
def joined (line : Nat) (left right : Expr) : Operator → Expr
  | .binary op => .binary op line left right
  | .logical op => .logical op line left right

mutual

/-- An expression.  In front of an `=` there is a name, or a property of what a call gives. -/
inductive Expression : Spot → Expr → Spot → Prop
  | ladder {a b : Spot} {e : Expr} (of : Ladder .or a e b) : Expression a e b
  | assign {a b c d : Spot} {name : Name} {line : Nat} {e : Expr} (target : Named a name b)
      (equal : Mark .equal b.used line c) (value : Expression c e d) :
      Expression a (.assign ⟨d.nextId, name⟩ e) d.used
  | set {a b c d f g : Spot} {name : Name} {line line' : Nat} {e e' : Expr} (object : Call a e b)
      (dot : Mark .dot b line c) (property : Named c name d) (equal : Mark .equal d line' f)
      (value : Expression f e' g) : Expression a (.set e name e') g

/-- Operands with operators of a level between them, those to the left first. -/
inductive Ladder : Level → Spot → Expr → Spot → Prop
  | operand {level : Level} {a b : Spot} {e : Expr} (of : Operand level a e b) :
      Ladder level a e b
  | join {level : Level} {a b c d : Spot} {op : Operator} {line : Nat} {e e' : Expr}
      (left : Ladder level a e b) (operator : Between level b op line c)
      (right : Operand level c e' d) : Ladder level a (joined line e e' op) d

/-- An operand of a level. -/
inductive Operand : Level → Spot → Expr → Spot → Prop
  | ladder {level level' : Level} {a b : Spot} {e : Expr} (tighter : Tighter level level')
      (of : Ladder level' a e b) : Operand level a e b
  | unary {a b : Spot} {e : Expr} (of : Unary a e b) : Operand .product a e b

/-- Operators in front of what a call gives. -/
inductive Unary : Spot → Expr → Spot → Prop
  | op {a b c : Spot} {op : UnaryOp} {line : Nat} {e : Expr} (operator : Before a op line b)
      (operand : Unary b e c) : Unary a (.unary op line e) c
  | call {a b : Spot} {e : Expr} (of : Call a e b) : Unary a e b

/-- Calls, and properties of what they give. -/
inductive Call : Spot → Expr → Spot → Prop
  | primary {a b : Spot} {e : Expr} (of : Primary a e b) : Call a e b
  | call {a b c d f : Spot} {line line' : Nat} {e : Expr} {es : List Expr} (callee : Call a e b)
      (left : Mark .leftParen b line c) (arguments : Series c es d)
      (few : es.length ≤ 255) (right : Mark .rightParen d line' f) :
      Call a (.call e es line') f
  | get {a b c d : Spot} {name : Name} {line : Nat} {e : Expr} (object : Call a e b)
      (dot : Mark .dot b line c) (property : Named c name d) : Call a (.get e name) d

/-- Literals, names, `this`, `super`, expressions in parentheses and lists. -/
inductive Primary : Spot → Expr → Spot → Prop
  | literal {a b : Spot} {value : Literal} (of : Value a value b) : Primary a (.literal value) b
  | named {a b : Spot} {name : Name} (of : Named a name b) :
      Primary a (.variable ⟨b.nextId, name⟩) b.used
  | this {a b : Spot} {line : Nat} (word : Word .this a line b) :
      Primary a (.this b.nextId line) b.used
  | super {a b c d : Spot} {name : Name} {line line' : Nat} (word : Word .super a line b)
      (dot : Mark .dot b line' c) (method : Named c name d) :
      Primary a (.super d.nextId line name) d.used
  | grouping {a b c d : Spot} {line line' : Nat} {e : Expr} (left : Mark .leftParen a line b)
      (inner : Expression b e c) (right : Mark .rightParen c line' d) : Primary a (.grouping e) d
  | list {a b c d : Spot} {line line' : Nat} {es : List Expr} (left : Mark .leftBracket a line b)
      (elements : Series b es c) (right : Mark .rightBracket c line' d) :
      Primary a (.list line es) d

/-- Expressions with commas between them, if there are any. -/
inductive Series : Spot → List Expr → Spot → Prop
  | none {a : Spot} : Series a [] a
  | some {a b : Spot} {es : List Expr} (of : Items a es b) : Series a es b

/-- One or more expressions with commas between them. -/
inductive Items : Spot → List Expr → Spot → Prop
  | last {a b : Spot} {e : Expr} (item : Expression a e b) : Items a [e] b
  | more {a b c d : Spot} {line : Nat} {e : Expr} {es : List Expr} (item : Expression a e b)
      (comma : Mark .comma b line c) (rest : Items c es d) : Items a (e :: es) d

end

/-! ## 3. Parts of statements

What can stand inside a statement or be left out of it. -/

/-- One or more names with commas between them. -/
inductive Names : Spot → List Name → Spot → Prop
  | last {a b : Spot} {name : Name} (item : Named a name b) : Names a [name] b
  | more {a b c d : Spot} {line : Nat} {name : Name} {names : List Name} (item : Named a name b)
      (comma : Mark .comma b line c) (rest : Names c names d) : Names a (name :: names) d

/-- The parameters of a function, if there are any. -/
inductive Parameters : Spot → List Name → Spot → Prop
  | none {a : Spot} : Parameters a [] a
  | some {a b : Spot} {names : List Name} (of : Names a names b)
      (few : names.length ≤ 255) : Parameters a names b

/-- An expression that may be absent. -/
inductive Optional : Spot → Option Expr → Spot → Prop
  | none {a : Spot} : Optional a none a
  | some {a b : Spot} {e : Expr} (of : Expression a e b) : Optional a (some e) b

/-- The initial value of a variable, if there is one. -/
inductive Initial : Spot → Option Expr → Spot → Prop
  | none {a : Spot} : Initial a none a
  | some {a b c : Spot} {line : Nat} {e : Expr} (equal : Mark .equal a line b)
      (of : Expression b e c) : Initial a (some e) c

/-- The class that a class extends, if there is one. -/
inductive Superclass : Spot → Option Variable → Spot → Prop
  | none {a : Spot} : Superclass a none a
  | some {a b c : Spot} {line : Nat} {name : Name} (less : Mark .less a line b)
      (of : Named b name c) : Superclass a (some ⟨c.nextId, name⟩) c.used

/-- A variable declaration. -/
inductive Var : Spot → Stmt → Spot → Prop
  | mk {a b c d f : Spot} {line line' : Nat} {name : Name} {value : Option Expr}
      (word : Word .var a line b) (of : Named b name c) (initial : Initial c value d)
      (semicolon : Mark .semicolon d line' f) : Var a (.varDecl name value) f

/-- An expression that stands as a statement. -/
inductive Evaluation : Spot → Stmt → Spot → Prop
  | mk {a b c : Spot} {line : Nat} {e : Expr} (value : Expression a e b)
      (semicolon : Mark .semicolon b line c) : Evaluation a (.expression e) c

/-- The word `var` in front of the variable of a `foreach` loop, which may be left out. -/
inductive OptionalVar : Spot → Spot → Prop
  | none {a : Spot} : OptionalVar a a
  | some {a b : Spot} {line : Nat} (word : Word .var a line b) : OptionalVar a b

/-- What a `for` loop begins with, up to the first semicolon. -/
inductive First : Spot → Option Stmt → Spot → Prop
  | none {a b : Spot} {line : Nat} (semicolon : Mark .semicolon a line b) : First a none b
  | varDecl {a b : Spot} {s : Stmt} (of : Var a s b) : First a (some s) b
  | expression {a b : Spot} {s : Stmt} (of : Evaluation a s b) : First a (some s) b

/-- The condition of a `for` loop; without one it goes on for ever. -/
inductive Test : Spot → Expr → Spot → Prop
  | none {a : Spot} : Test a (.literal (.boolean true)) a
  | some {a b : Spot} {e : Expr} (of : Expression a e b) : Test a e b

/-! ## 4. Statements

Branches and the bodies of loops are statements, declarations stand only in blocks and at the top of
a program. -/

/-- The loop that a `for` loop is short for.  What it begins with runs once, in a block around the
loop, and the increment runs in a block with the body, behind it. -/
def loop : (first : Option Stmt) → (condition : Expr) → (increment : Option Expr) →
    (body : Stmt) → Stmt
  | none, condition, none, body => .whileLoop condition body
  | none, condition, some step, body => .whileLoop condition (.block [body, .expression step])
  | some first, condition, none, body => .block [first, .whileLoop condition body]
  | some first, condition, some step, body =>
    .block [first, .whileLoop condition (.block [body, .expression step])]

mutual

/-- A declaration or a statement. -/
inductive Declaration : Spot → Stmt → Spot → Prop
  | classDecl {a b c d f g h : Spot} {line line' line'' : Nat} {name : Name}
      {superclass : Option Variable} {methods : List FunDecl} (word : Word .class a line b)
      (of : Named b name c) (extended : Superclass c superclass d)
      (left : Mark .leftBrace d line' f) (body : Methods f methods g)
      (right : Mark .rightBrace g line'' h) :
      Declaration a (.classDecl name superclass methods) h
  | funDecl {a b c : Spot} {line : Nat} {declaration : FunDecl} (word : Word .fun a line b)
      (of : Function b declaration c) : Declaration a (.funDecl declaration) c
  | varDecl {a b : Spot} {s : Stmt} (of : Var a s b) : Declaration a s b
  | statement {a b : Spot} {s : Stmt} (of : Statement false a s b) : Declaration a s b

/-- Any number of declarations. -/
inductive Declarations : Spot → List Stmt → Spot → Prop
  | none {a : Spot} : Declarations a [] a
  | more {a b c : Spot} {s : Stmt} {body : List Stmt} (first : Declaration a s b)
      (rest : Declarations b body c) : Declarations a (s :: body) c

/-- Declarations between braces. -/
inductive Block : Spot → List Stmt → Spot → Prop
  | mk {a b c d : Spot} {line line' : Nat} {body : List Stmt} (left : Mark .leftBrace a line b)
      (of : Declarations b body c) (right : Mark .rightBrace c line' d) : Block a body d

/-- A function or method from its name on. -/
inductive Function : Spot → FunDecl → Spot → Prop
  | mk {a b c d f g : Spot} {line line' : Nat} {name : Name} {params : List Name}
      {body : List Stmt} (of : Named a name b) (left : Mark .leftParen b line c)
      (parameters : Parameters c params d) (right : Mark .rightParen d line' f)
      (block : Block f body g) : Function a ⟨name, params, body⟩ g

/-- Any number of methods. -/
inductive Methods : Spot → List FunDecl → Spot → Prop
  | none {a : Spot} : Methods a [] a
  | more {a b c : Spot} {method : FunDecl} {methods : List FunDecl} (first : Function a method b)
      (rest : Methods b methods c) : Methods a (method :: methods) c

/-- A statement; of the closed ones an `else` can follow. -/
inductive Statement : (closed : Bool) → Spot → Stmt → Spot → Prop
  | ifThen {a b c d f g : Spot} {line line' line'' : Nat} {e : Expr} {s : Stmt}
      (word : Word .if a line b) (left : Mark .leftParen b line' c) (condition : Expression c e d)
      (right : Mark .rightParen d line'' f) (branch : Statement false f s g) :
      Statement false a (.ifElse e s none) g
  | ifElse {closed : Bool} {a b c d f g h i : Spot} {line line' line'' line''' : Nat} {e : Expr}
      {s s' : Stmt} (word : Word .if a line b) (left : Mark .leftParen b line' c)
      (condition : Expression c e d) (right : Mark .rightParen d line'' f)
      (branch : Statement true f s g) (otherwise : Word .else g line''' h)
      (branch' : Statement closed h s' i) : Statement closed a (.ifElse e s (some s')) i
  | print {closed : Bool} {a b c d : Spot} {line line' : Nat} {e : Expr}
      (word : Word .print a line b) (value : Expression b e c)
      (semicolon : Mark .semicolon c line' d) : Statement closed a (.print line e) d
  | ret {closed : Bool} {a b c d : Spot} {line line' : Nat} {value : Option Expr}
      (word : Word .return a line b) (of : Optional b value c)
      (semicolon : Mark .semicolon c line' d) : Statement closed a (.ret line value) d
  | block {closed : Bool} {a b : Spot} {body : List Stmt} (of : Block a body b) :
      Statement closed a (.block body) b
  | whileLoop {closed : Bool} {a b c d f g : Spot} {line line' line'' : Nat} {e : Expr} {s : Stmt}
      (word : Word .while a line b) (left : Mark .leftParen b line' c)
      (condition : Expression c e d) (right : Mark .rightParen d line'' f)
      (body : Statement closed f s g) : Statement closed a (.whileLoop e s) g
  | forLoop {closed : Bool} {a b c d f g h i j : Spot} {line line' line'' line''' : Nat}
      {first : Option Stmt} {e : Expr} {step : Option Expr} {s : Stmt} (word : Word .for a line b)
      (left : Mark .leftParen b line' c) (initializer : First c first d) (condition : Test d e f)
      (semicolon : Mark .semicolon f line'' g) (increment : Optional g step h)
      (right : Mark .rightParen h line''' i) (body : Statement closed i s j) :
      Statement closed a (loop first e step s) j
  | forEach {closed : Bool} {a b c d f g h i j : Spot} {line line' line'' line''' : Nat}
      {name : Name} {e : Expr} {s : Stmt} (word : Word .foreach a line b)
      (left : Mark .leftParen b line' c) (declared : OptionalVar c d) (item : Named d name f)
      (semicolon : Mark .semicolon f line'' g) (iterable : Expression g e h)
      (right : Mark .rightParen h line''' i) (body : Statement closed i s j) :
      Statement closed a (.forEach line name e s) j
  | evaluation {closed : Bool} {a b : Spot} {s : Stmt} (of : Evaluation a s b) :
      Statement closed a s b

end

/-! ## 5. Derivations

What a derivation of a tree of some form can be made of. -/

mutual

/-- An expression of a level that no operator of a level has made is a unary one. -/
theorem Ladder.unary {level : Level} {a b : Spot} {e : Expr} :
    Ladder level a e b → (∀ op line left right, e ≠ joined line left right op) → Unary a e b
  | .operand of, h => of.unary' h
  | .join _ _ _, h => absurd rfl (h _ _ _ _)

theorem Operand.unary' {level : Level} {a b : Spot} {e : Expr} :
    Operand level a e b → (∀ op line left right, e ≠ joined line left right op) → Unary a e b
  | .ladder _ of, h => of.unary h
  | .unary of, _ => of

end

/-- A variable that stands where an expression may is its name. -/
theorem Ladder.named {level : Level} {a b : Spot} {v : Variable}
    (h : Ladder level a (.variable v) b) :
    ∃ c name, Named a name c ∧ v = ⟨c.nextId, name⟩ ∧ b = c.used := by
  have of := h.unary fun op line left right => by cases op <;> exact Expr.noConfusion
  cases of with
  | call of =>
    cases of with
    | primary of =>
      cases of with
      | named of => exact ⟨_, _, of, rfl, rfl⟩

/-- A property that stands where an expression may is one of what a call gives. -/
theorem Ladder.property {level : Level} {a d : Spot} {e : Expr} {name : Name}
    (h : Ladder level a (.get e name) d) :
    ∃ b c line, Call a e b ∧ Mark .dot b line c ∧ Named c name d := by
  have of := h.unary fun op line left right => by cases op <;> exact Expr.noConfusion
  cases of with
  | call of =>
    cases of with
    | primary of => cases of
    | get object dot property => exact ⟨_, _, _, object, dot, property⟩

/-- Wherever a closed statement can stand another one can stand as well. -/
theorem Statement.relax {closed : Bool} {a b : Spot} {s : Stmt} :
    Statement closed a s b → Statement false a s b
  | .ifThen word left condition right branch => .ifThen word left condition right branch
  | .ifElse word left condition right branch otherwise branch' =>
    .ifElse word left condition right branch otherwise branch'.relax
  | .print word value semicolon => .print word value semicolon
  | .ret word of semicolon => .ret word of semicolon
  | .block of => .block of
  | .whileLoop word left condition right body => .whileLoop word left condition right body.relax
  | .forLoop word left initializer condition semicolon increment right body =>
    .forLoop word left initializer condition semicolon increment right body.relax
  | .forEach word left declared item semicolon iterable right body =>
    .forEach word left declared item semicolon iterable right body.relax
  | .evaluation of => .evaluation of

theorem Declarations.trans {a b c : Spot} {body body' : List Stmt} (h : Declarations a body b)
    (h' : Declarations b body' c) : Declarations a (body ++ body') c := by
  induction body generalizing a with
  | nil =>
    cases h
    exact h'
  | cons s body ih =>
    cases h with
    | more first rest => exact .more first (ih rest)

end Grammar

end Lox
