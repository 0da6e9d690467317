/-
# Programs as trees

Expressions and statements.  A node that reads or writes a variable, and every `this` and `super`,
carries an `Id` of its own, under which the resolution of its name is filed.  Lines are kept where
a run-time error can be reported.

There is no node for the `for` loop: reading one gives a `whileLoop` inside blocks.
-/
namespace Lox

/-- The identity of a node that refers to a variable, `this` or `super`. -/
abbrev Id := Nat

/-- A name as it stands in a program. -/
structure Name where
  text : String
  line : Nat
  deriving DecidableEq, Repr

/-- A name that refers to a variable. -/
structure Variable where
  id : Id
  name : Name
  deriving DecidableEq, Repr

/-- The operators of one operand. -/
inductive UnaryOp where
  | negate | not
  deriving DecidableEq, Repr

/-- The operators that evaluate both operands. -/
inductive BinaryOp where
  | equal | notEqual
  | greater | greaterEqual | less | lessEqual
  | add | subtract
  | multiply | divide
  deriving DecidableEq, Repr

/-- The operators that evaluate their right operand only if the left one does not decide. -/
inductive LogicalOp where
  | and | or
  deriving DecidableEq, Repr

/-- An operator between two expressions. -/
inductive Operator where
  | binary (op : BinaryOp)
  | logical (op : LogicalOp)

/-- The levels of precedence that operators between two expressions are on, the loosest first. -/
inductive Level where
  | or | and | equality | comparison | sum | product
  deriving DecidableEq, Repr

/-- The text of an operator. -/
def UnaryOp.text : UnaryOp → String
  | .negate => "-" | .not => "!"

/-- The text of an operator. -/
def BinaryOp.text : BinaryOp → String
  | .equal => "==" | .notEqual => "!="
  | .greater => ">" | .greaterEqual => ">=" | .less => "<" | .lessEqual => "<="
  | .add => "+" | .subtract => "-"
  | .multiply => "*" | .divide => "/"

/-- The text of an operator. -/
def LogicalOp.text : LogicalOp → String
  | .and => "and" | .or => "or"

/-- Values written out in a program. -/
inductive Literal where
  | nil
  | boolean (value : Bool)
  | number (value : Float)
  | string (value : String)

/-- Expressions. -/
inductive Expr where
  | literal (value : Literal)
  /-- An expression in parentheses. -/
  | grouping (inner : Expr)
  | unary (op : UnaryOp) (line : Nat) (operand : Expr)
  | binary (op : BinaryOp) (line : Nat) (left right : Expr)
  | logical (op : LogicalOp) (line : Nat) (left right : Expr)
  | variable (occurrence : Variable)
  | assign (target : Variable) (value : Expr)
  /-- A call, with the line of its closing parenthesis. -/
  | call (callee : Expr) (arguments : List Expr) (line : Nat)
  | get (object : Expr) (property : Name)
  | set (object : Expr) (property : Name) (value : Expr)
  | this (id : Id) (line : Nat)
  | super (id : Id) (line : Nat) (method : Name)
  /-- A list, with the line of its opening bracket. -/
  | list (line : Nat) (elements : List Expr)

mutual

/-- Statements and declarations. -/
inductive Stmt where
  | print (line : Nat) (value : Expr)
  | expression (value : Expr)
  | varDecl (name : Name) (initializer : Option Expr)
  | block (body : List Stmt)
  | ifElse (condition : Expr) (thenBranch : Stmt) (elseBranch : Option Stmt)
  | whileLoop (condition : Expr) (body : Stmt)
  | forEach (line : Nat) (name : Name) (iterable : Expr) (body : Stmt)
  | funDecl (declaration : FunDecl)
  | ret (line : Nat) (value : Option Expr)
  | classDecl (name : Name) (superclass : Option Variable) (methods : List FunDecl)

/-- A function or method with its parameters and body. -/
structure FunDecl where
  name : Name
  params : List Name
  body : List Stmt

end

/-- The name of the method that a class calls on a new instance. -/
def initializerName : String := "init"

/-- Whether a method of this declaration initializes new instances. -/
def FunDecl.isInitializer (declaration : FunDecl) : Bool :=
  declaration.name.text = initializerName

end Lox
