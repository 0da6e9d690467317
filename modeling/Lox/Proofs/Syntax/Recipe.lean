/-
# What each reader does, step by step

The readers of `Lox.Parse` call each other and pass fuel along.  Here each of their calls is a
`Phrase`, and the `recipe` of a phrase lists what its reader does itself (`Recipe.act`) and which
other phrases it has read (`Recipe.phrase`), without fuel.

`Phrase.read_succ` says that carrying out the recipe of a phrase, with one unit of fuel less, is
what the reader does.
-/
import Lox.Syntax.Parse

namespace Lox.Parse

/-! ## 1. Phrases and recipes

A recipe is a tree: an act and what is done with its answer, or a call and what is done with what it
gives. -/

/-- The readers, those that read the levels of operators one by one. -/
inductive Rule where
  | expression
  | ladder (level : Level)
  | operand (level : Level)
  | ladderRest (level : Level)
  | unary | callRest | arguments | elements | primary | parameters
  | declaration | classDeclaration | methods | function | block
  | statement | ifStatement | forStatement | foreachStatement
  deriving DecidableEq

/-- A call of a reader, its fuel apart. -/
inductive Phrase where
  | expression
  | ladder (level : Level)
  | operand (level : Level)
  | ladderRest (level : Level) (left : Expr)
  | unary
  | callRest (callee : Expr)
  | arguments (count : Nat)
  | elements
  | primary
  | parameters (count : Nat)
  | declaration
  | classDeclaration
  | methods
  | function (kind : FunKind)
  | block
  | statement
  | ifStatement
  | forStatement
  | foreachStatement (line : Nat)

namespace Phrase

/-- The reader that is called. -/
def rule : Phrase → Rule
  | expression => .expression
  | ladder level => .ladder level
  | operand level => .operand level
  | ladderRest level _ => .ladderRest level
  | unary => .unary
  | callRest _ => .callRest
  | arguments _ => .arguments
  | elements => .elements
  | primary => .primary
  | parameters _ => .parameters
  | declaration => .declaration
  | classDeclaration => .classDeclaration
  | methods => .methods
  | function _ => .function
  | block => .block
  | statement => .statement
  | ifStatement => .ifStatement
  | forStatement => .forStatement
  | foreachStatement _ => .foreachStatement

/-- What a reader gives if there is no error. -/
@[reducible] def Answer : Phrase → Type
  | expression | ladder _ | operand _ | ladderRest .. | unary | callRest _ | primary => Expr
  | arguments _ | elements => List Expr
  | parameters _ => List Name
  | declaration | classDeclaration | statement | ifStatement | forStatement
  | foreachStatement _ => Stmt
  | methods => List FunDecl
  | function _ => FunDecl
  | block => List Stmt

/-- Calls the reader. -/
def read (fuel : Nat) : (phrase : Phrase) → Parse phrase.Answer
  | expression => Parse.expression fuel
  | ladder level => Parse.ladder fuel level
  | operand level => Parse.operand fuel level
  | ladderRest level left => Parse.ladderRest fuel level left
  | unary => Parse.unary fuel
  | callRest callee => Parse.callRest fuel callee
  | arguments count => Parse.arguments fuel count
  | elements => Parse.elements fuel
  | primary => Parse.primary fuel
  | parameters count => Parse.parameters fuel count
  | declaration => Parse.declaration fuel
  | classDeclaration => Parse.classDeclaration fuel
  | methods => Parse.methods fuel
  | function kind => Parse.function fuel kind
  | block => Parse.block fuel
  | statement => Parse.statement fuel
  | ifStatement => Parse.ifStatement fuel
  | forStatement => Parse.forStatement fuel
  | foreachStatement line => Parse.foreachStatement fuel line

end Phrase

/-- What a reader does itself. -/
inductive Act : Type → Type 1 where
  | peek? : Act (Option Token)
  | peekKind? : Act (Option Kind)
  | nextIs (symbol : Symbol) : Act Bool
  | atEnd : Act Bool
  | advance : Act Unit
  | skip (symbol : Symbol) : Act Bool
  | expect (place : Place) : Act Nat
  | expectName (role : NameRole) : Act Name
  | operator? (level : Level) : Act (Option (Operator × Nat))
  | unaryOperator? : Act (Option (UnaryOp × Nat))
  | freshId : Act Id
  | record (error : SyntaxError) : Act Unit
  | recordHere (cause : SyntaxCause) : Act Unit
  | fail {α : Type} (cause : SyntaxCause) : Act α

/-- Carries out an act. -/
@[simp] def Act.run {α : Type} : Act α → Parse α
  | peek? => Parse.peek?
  | peekKind? => Parse.peekKind?
  | nextIs symbol => Parse.nextIs symbol
  | atEnd => Parse.atEnd
  | advance => Parse.advance
  | skip symbol => Parse.skip symbol
  | expect place => Parse.expect place
  | expectName role => Parse.expectName role
  | operator? level => Parse.operator? level
  | unaryOperator? => Parse.unaryOperator?
  | freshId => Parse.freshId
  | record error => Parse.record error
  | recordHere cause => Parse.recordHere cause
  | fail cause => failHere cause

/-- What a reader does, in order: acts of its own and other phrases. -/
inductive Recipe : Type → Type 1 where
  | done {α : Type} (value : α) : Recipe α
  | act {α β : Type} (action : Act β) (next : β → Recipe α) : Recipe α
  | phrase {α : Type} (phrase : Phrase) (next : phrase.Answer → Recipe α) : Recipe α

namespace Recipe

variable {α β : Type}

/-- One recipe and then another. -/
protected def bind : Recipe α → (α → Recipe β) → Recipe β
  | done value, f => f value
  | act action next, f => act action fun answer => (next answer).bind f
  | phrase called next, f => phrase called fun answer => (next answer).bind f

instance : Monad Recipe where
  pure := done
  bind := Recipe.bind

/-- Carries out a recipe, given how to read phrases. -/
def run (read : (phrase : Phrase) → Parse phrase.Answer) : Recipe α → Parse α
  | done value => pure value
  | act action next => do (next (← action.run)).run read
  | phrase called next => do (next (← read called)).run read

/-- An act as a recipe. -/
def doing (action : Act α) : Recipe α := act action done

/-- A phrase as a recipe. -/
def reading (called : Phrase) : Recipe called.Answer := phrase called done

variable (rec : (phrase : Phrase) → Parse phrase.Answer)

/-- To carry out two recipes, one after the other. -/
@[simp] theorem run_bind (recipe : Recipe α) (f : α → Recipe β) :
    (recipe >>= f).run rec = recipe.run rec >>= fun value => (f value).run rec := by
  induction recipe with
  | done value => rfl
  | act action next ih =>
    change (action.run >>= fun answer => ((next answer) >>= f).run rec) = _
    simp only [ih, run, bind_assoc]
  | phrase called next ih =>
    change (rec called >>= fun answer => ((next answer) >>= f).run rec) = _
    simp only [ih, run, bind_assoc]

/-- A recipe that does nothing. -/
@[simp] theorem run_pure (value : α) : (pure value : Recipe α).run rec = pure value := rfl

@[simp] theorem run_map (g : α → β) (recipe : Recipe α) :
    (g <$> recipe).run rec = g <$> recipe.run rec :=
  (run_bind rec recipe (pure ∘ g)).trans (bind_pure_comp g (recipe.run rec))

/-- A recipe that is one act. -/
@[simp] theorem run_doing (action : Act α) : (doing action).run rec = action.run :=
  bind_pure action.run

/-- A recipe that calls a reader. -/
@[simp] theorem run_reading (called : Phrase) :
    @Recipe.run (no_index called.Answer) rec (reading called) = rec called :=
  bind_pure (rec called)

/-- A recipe that branches. -/
@[simp] theorem run_ite (p : Prop) [Decidable p] (x y : Recipe α) :
    (if p then x else y).run rec = if p then x.run rec else y.run rec := by
  split <;> rfl

end Recipe

/-! ## 2. The recipe of every phrase

Each recipe is written like the reader that it belongs to, with calls in place of readers. -/

namespace Phrase

open Recipe

/-- An expression. -/
def expressionRecipe : Recipe Expr := do
  let target ← reading (.ladder .or)
  match ← doing .peek? with
  | some ⟨.symbol .equal, lexeme, line⟩ =>
    doing .advance
    let value ← reading .expression
    match target with
    | .variable v => return .assign ⟨← doing .freshId, v.name⟩ value
    | .get object property => return .set object property value
    | _ =>
      doing (.record ⟨line, some lexeme, .invalidTarget⟩)
      return value
  | _ => return target

/-- The operators and operands of a level that follow a left operand. -/
def ladderRestRecipe (level : Level) (left : Expr) : Recipe Expr := do
  match ← doing (.operator? level) with
  | none => return left
  | some (op, line) =>
    let right ← reading (.operand level)
    reading (.ladderRest level (op.apply line left right))

/-- Unary operators in front of an expression that calls and properties may follow. -/
def unaryRecipe : Recipe Expr := do
  match ← doing .unaryOperator? with
  | some (op, line) => return .unary op line (← reading .unary)
  | none => reading (.callRest (← reading .primary))

/-- The calls and properties that follow an expression. -/
def callRestRecipe (callee : Expr) : Recipe Expr := do
  match ← doing .peekKind? with
  | some (.symbol .leftParen) =>
    doing .advance
    let values ← if ← doing (.nextIs .rightParen) then pure [] else reading (.arguments 0)
    let line ← doing (.expect .afterArguments)
    reading (.callRest (.call callee values line))
  | some (.symbol .dot) =>
    doing .advance
    let property ← doing (.expectName .property)
    reading (.callRest (.get callee property))
  | _ => return callee

/-- A series of something, one after the other, with commas in between. -/
def seriesRecipe {α : Type} (one : Recipe α) (others : Recipe (List α)) : Recipe (List α) := do
  let value ← one
  if ← doing (.skip .comma) then return value :: (← others)
  else return [value]

/-- The arguments of a call from the given one on. -/
def argumentsRecipe (count : Nat) : Recipe (List Expr) := do
  if maxArguments ≤ count then doing (.recordHere .tooManyArguments)
  seriesRecipe (reading .expression) (reading (.arguments (count + 1)))

/-- The parameters of a function from the given one on. -/
def parametersRecipe (count : Nat) : Recipe (List Name) := do
  if maxArguments ≤ count then doing (.recordHere .tooManyParameters)
  seriesRecipe (doing (.expectName .parameter)) (reading (.parameters (count + 1)))

/-- Literals, names, `this`, `super`, expressions in parentheses and lists. -/
def primaryRecipe : Recipe Expr := do
  match ← doing .peek? with
  | none => doing (.fail .missingExpression)
  | some ⟨kind, lexeme, line⟩ =>
    match kind with
    | .keyword .false => doing .advance; return .literal (.boolean false)
    | .keyword .true => doing .advance; return .literal (.boolean true)
    | .keyword .nil => doing .advance; return .literal .nil
    | .number value => doing .advance; return .literal (.number value)
    | .string contents => doing .advance; return .literal (.string contents)
    | .identifier => doing .advance; return .variable ⟨← doing .freshId, ⟨lexeme, line⟩⟩
    | .keyword .this => doing .advance; return .this (← doing .freshId) line
    | .keyword .super =>
      doing .advance
      let _ ← doing (.expect .afterSuper)
      let method ← doing (.expectName .superMethod)
      return .super (← doing .freshId) line method
    | .symbol .leftParen =>
      doing .advance
      let inner ← reading .expression
      let _ ← doing (.expect .afterGrouping)
      return .grouping inner
    | .symbol .leftBracket =>
      doing .advance
      let values ← if ← doing (.nextIs .rightBracket) then pure [] else reading .elements
      let _ ← doing (.expect .afterElements)
      return .list line values
    | _ => doing (.fail .missingExpression)

/-- A variable declaration after its keyword. -/
def varDeclarationRecipe : Recipe Stmt := do
  let name ← doing (.expectName .variableName)
  let initializer ← if ← doing (.skip .equal) then some <$> reading .expression else pure none
  let _ ← doing (.expect .afterVariable)
  return .varDecl name initializer

/-- An expression that stands as a statement. -/
def expressionStatementRecipe : Recipe Stmt := do
  let value ← reading .expression
  let _ ← doing (.expect .afterStatement)
  return .expression value

/-- A declaration or a statement. -/
def declarationRecipe : Recipe Stmt := do
  match ← doing .peekKind? with
  | some (.keyword .class) => doing .advance; reading .classDeclaration
  | some (.keyword .fun) => doing .advance; return .funDecl (← reading (.function .function))
  | some (.keyword .var) => doing .advance; varDeclarationRecipe
  | _ => reading .statement

/-- A class declaration after its keyword. -/
def classDeclarationRecipe : Recipe Stmt := do
  let name ← doing (.expectName .className)
  let superclass ← if ← doing (.skip .less) then do
      let superName ← doing (.expectName .superclassName)
      pure (some ⟨← doing .freshId, superName⟩)
    else pure none
  let _ ← doing (.expect .beforeClassBody)
  let methods ← reading .methods
  let _ ← doing (.expect .afterClassBody)
  return .classDecl name superclass methods

/-- The methods up to the end of a class body. -/
def methodsRecipe : Recipe (List FunDecl) := do
  if (← doing (.nextIs .rightBrace)) || (← doing .atEnd) then return []
  else
    let method ← reading (.function .method)
    return method :: (← reading .methods)

/-- A function or method from its name on. -/
def functionRecipe (kind : FunKind) : Recipe FunDecl := do
  let name ← doing (.expectName (.declared kind))
  let _ ← doing (.expect (.afterName kind))
  let params ← if ← doing (.nextIs .rightParen) then pure [] else reading (.parameters 0)
  let _ ← doing (.expect .afterParameters)
  let _ ← doing (.expect (.beforeBody kind))
  return ⟨name, params, ← reading .block⟩

/-- The declarations of a block after its opening brace, up to and with the closing one. -/
def blockRecipe : Recipe (List Stmt) := do
  if (← doing (.nextIs .rightBrace)) || (← doing .atEnd) then
    let _ ← doing (.expect .afterBlock)
    return []
  else
    let first ← reading .declaration
    return first :: (← reading .block)

/-- A statement. -/
def statementRecipe : Recipe Stmt := do
  match ← doing .peek? with
  | some ⟨.keyword .if, _, _⟩ => doing .advance; reading .ifStatement
  | some ⟨.keyword .print, _, line⟩ =>
    doing .advance
    let value ← reading .expression
    let _ ← doing (.expect .afterValue)
    return .print line value
  | some ⟨.keyword .return, _, line⟩ =>
    doing .advance
    let value ← if ← doing (.nextIs .semicolon) then pure none else some <$> reading .expression
    let _ ← doing (.expect .afterReturn)
    return .ret line value
  | some ⟨.symbol .leftBrace, _, _⟩ => doing .advance; return .block (← reading .block)
  | some ⟨.keyword .while, _, _⟩ =>
    doing .advance
    let _ ← doing (.expect .afterWhile)
    let condition ← reading .expression
    let _ ← doing (.expect .afterCondition)
    return .whileLoop condition (← reading .statement)
  | some ⟨.keyword .for, _, _⟩ => doing .advance; reading .forStatement
  | some ⟨.keyword .foreach, _, line⟩ => doing .advance; reading (.foreachStatement line)
  | _ => expressionStatementRecipe

/-- An `if` after its keyword. -/
def ifStatementRecipe : Recipe Stmt := do
  let _ ← doing (.expect .afterIf)
  let condition ← reading .expression
  let _ ← doing (.expect .afterIfCondition)
  let thenBranch ← reading .statement
  match ← doing .peekKind? with
  | some (.keyword .else) =>
    doing .advance
    return .ifElse condition thenBranch (some (← reading .statement))
  | _ => return .ifElse condition thenBranch none

/-- A `for` after its keyword. -/
def forStatementRecipe : Recipe Stmt := do
  let _ ← doing (.expect .afterFor)
  let initializer ← match ← doing .peekKind? with
    | some (.symbol .semicolon) => do
      doing .advance
      pure none
    | some (.keyword .var) => do
      doing .advance
      some <$> varDeclarationRecipe
    | _ => some <$> expressionStatementRecipe
  let condition ← if ← doing (.nextIs .semicolon) then pure (.literal (.boolean true))
    else reading .expression
  let _ ← doing (.expect .afterLoopCondition)
  let increment ← if ← doing (.nextIs .rightParen) then pure none
    else some <$> reading .expression
  let _ ← doing (.expect .afterForClauses)
  return forLoop initializer condition increment (← reading .statement)

/-- A `foreach` after its keyword. -/
def foreachStatementRecipe (line : Nat) : Recipe Stmt := do
  let _ ← doing (.expect .afterForeach)
  match ← doing .peekKind? with
  | some (.keyword .var) => doing .advance
  | _ => pure ()
  let name ← doing (.expectName .loopVariable)
  let _ ← doing (.expect .afterLoopVariable)
  let iterable ← reading .expression
  let _ ← doing (.expect .afterForeachClauses)
  return .forEach line name iterable (← reading .statement)

/-- What the reader of a phrase does. -/
def recipe : (phrase : Phrase) → Recipe phrase.Answer
  | expression => expressionRecipe
  | ladder level => do reading (.ladderRest level (← reading (.operand level)))
  | operand level =>
    match level.tighter? with
    | some tighter => reading (.ladder tighter)
    | none => reading .unary
  | ladderRest level left => ladderRestRecipe level left
  | unary => unaryRecipe
  | callRest callee => callRestRecipe callee
  | arguments count => argumentsRecipe count
  | elements => seriesRecipe (reading .expression) (reading .elements)
  | primary => primaryRecipe
  | parameters count => parametersRecipe count
  | declaration => declarationRecipe
  | classDeclaration => classDeclarationRecipe
  | methods => methodsRecipe
  | function kind => functionRecipe kind
  | block => blockRecipe
  | statement => statementRecipe
  | ifStatement => ifStatementRecipe
  | forStatement => forStatementRecipe
  | foreachStatement line => foreachStatementRecipe line

/-! ## 3. Readers carry out their recipes

One equation for each reader, and all of them together. -/

/-- Without fuel no reader reads. -/
theorem read_zero (phrase : Phrase) : phrase.read 0 = outOfFuel := by
  cases phrase <;> rfl

variable (fuel : Nat)

/-- The reader of expressions does what its recipe says. -/
theorem run_expressionRecipe :
    expressionRecipe.run (read fuel) = Parse.expression (fuel + 1) := by
  simp only [expressionRecipe, Parse.expression, run_bind, run_reading, run_doing, Act.run,
    read]
  refine bind_congr fun target => bind_congr fun next => ?_
  split
  · simp only [run_bind, run_reading, run_doing, Act.run,
    read]
    refine bind_congr fun _ => bind_congr fun value => ?_
    split <;> simp
  · simp

/-- So does the reader of primary expressions, token by token. -/
theorem run_primaryRecipe : primaryRecipe.run (read fuel) = Parse.primary (fuel + 1) := by
  simp only [primaryRecipe, Parse.primary, run_bind, run_doing, Act.run]
  refine bind_congr fun next => ?_
  split
  · simp
  · split <;> simp [read]

/-- This reader does not call itself, and so does not take fuel off. -/
theorem run_varDeclarationRecipe :
    varDeclarationRecipe.run (read fuel) = Parse.varDeclaration fuel := by
  simp [varDeclarationRecipe, Parse.varDeclaration, read]

theorem run_expressionStatementRecipe :
    expressionStatementRecipe.run (read fuel) = Parse.expressionStatement fuel := by
  simp [expressionStatementRecipe, Parse.expressionStatement, read]

theorem run_declarationRecipe :
    declarationRecipe.run (read fuel) = Parse.declaration (fuel + 1) := by
  simp only [declarationRecipe, Parse.declaration, run_bind, run_doing, Act.run]
  refine bind_congr fun next => ?_
  split <;> simp [read, run_varDeclarationRecipe]

/-- The reader of statements looks at the first token. -/
theorem run_statementRecipe :
    statementRecipe.run (read fuel) = Parse.statement (fuel + 1) := by
  simp only [statementRecipe, Parse.statement, run_bind, run_doing, Act.run]
  refine bind_congr fun next => ?_
  split <;> simp [read, run_expressionStatementRecipe]

theorem run_ifStatementRecipe :
    ifStatementRecipe.run (read fuel) = Parse.ifStatement (fuel + 1) := by
  simp only [ifStatementRecipe, Parse.ifStatement, run_bind, run_doing, run_reading,
    Act.run, read]
  refine bind_congr fun _ => bind_congr fun condition => bind_congr fun _ =>
    bind_congr fun thenBranch => bind_congr fun next => ?_
  split <;> simp [read]

/-- The clauses of a `for` loop, one after the other. -/
theorem run_forStatementRecipe :
    forStatementRecipe.run (read fuel) = Parse.forStatement (fuel + 1) := by
  simp only [forStatementRecipe, Parse.forStatement, run_bind, run_doing, Act.run]
  refine bind_congr fun _ => bind_congr fun next => ?_
  split <;> simp [read, run_varDeclarationRecipe, run_expressionStatementRecipe]

theorem run_foreachStatementRecipe (line : Nat) :
    (foreachStatementRecipe line).run (read fuel) = Parse.foreachStatement (fuel + 1) line := by
  simp only [foreachStatementRecipe, Parse.foreachStatement, run_bind, run_doing, Act.run]
  refine bind_congr fun _ => bind_congr fun next => ?_
  split <;> simp [read]

/-- **Recipes say what readers do.**  With one unit of fuel for itself, a reader carries out its
recipe, in which the other readers have the rest of the fuel. -/
theorem read_succ (phrase : Phrase) : phrase.read (fuel + 1) = phrase.recipe.run (read fuel) := by
  symm
  cases phrase with
  | expression => exact run_expressionRecipe fuel
  | ladder level => simp [recipe, read, Parse.ladder]
  | operand level => cases tighter : level.tighter? <;> simp [recipe, read, Parse.operand, tighter]
  | ladderRest level left =>
    simp only [recipe, ladderRestRecipe, read, Parse.ladderRest, run_bind, run_doing, Act.run]
    refine bind_congr fun next => ?_
    split <;> simp [read]
  | unary =>
    simp only [recipe, unaryRecipe, read, Parse.unary, run_bind, run_doing, Act.run]
    refine bind_congr fun next => ?_
    split <;> simp [read]
  | callRest callee =>
    simp only [recipe, callRestRecipe, read, Parse.callRest, run_bind, run_doing, Act.run]
    refine bind_congr fun next => ?_
    split <;> simp [read]
  | arguments count => simp [recipe, argumentsRecipe, seriesRecipe, read, Parse.arguments]
  | elements => simp [recipe, seriesRecipe, read, Parse.elements]
  | primary => exact run_primaryRecipe fuel
  | parameters count => simp [recipe, parametersRecipe, seriesRecipe, read, Parse.parameters]
  | declaration => exact run_declarationRecipe fuel
  | classDeclaration => simp [recipe, classDeclarationRecipe, read, Parse.classDeclaration]
  | methods => simp [recipe, methodsRecipe, read, Parse.methods]
  | function kind => simp [recipe, functionRecipe, read, Parse.function]
  | block => simp [recipe, blockRecipe, read, Parse.block]
  | statement => exact run_statementRecipe fuel
  | ifStatement => exact run_ifStatementRecipe fuel
  | forStatement => exact run_forStatementRecipe fuel
  | foreachStatement line => exact run_foreachStatementRecipe fuel line

end Phrase

end Lox.Parse
