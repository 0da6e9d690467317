/-
# From tokens to programs

A recursive-descent reader of the grammar

    declaration → class | fun | var | statement
    statement   → if | while | for | foreach | print | return | block | expression ";"
    expression  → ladder ( "=" expression )?
    ladder      → binary operators on six levels, the loosest first, all left-associative
    unary       → ( "!" | "-" ) unary | call
    call        → primary ( "(" arguments ")" | "." name )*

over a state that holds the tokens still to be read, the next free id, and the errors recorded so
far.  Most errors end the declaration they stand in; reading then resumes at the next place where
a statement can begin (`resumeAfter`).  Too many parameters or arguments and an invalid
assignment target are only recorded.

Every function takes fuel, which bounds the depth of its calls; `parse` supplies an amount
proportional to the number of tokens.
-/
import Lox.Syntax.Basic
import Lox.Syntax.Error

namespace Lox

/-! ## 1. Operators -/

/-- The expression that an operator makes of its operands. -/
def Operator.apply (line : Nat) (left right : Expr) : Operator → Expr
  | .binary op => .binary op line left right
  | .logical op => .logical op line left right

/-- The next tighter level; operands of the tightest one are unary expressions. -/
def Level.tighter? : Level → Option Level
  | .or => some .and
  | .and => some .equality
  | .equality => some .comparison
  | .comparison => some .sum
  | .sum => some .product
  | .product => none

/-- The operator of a level that a token stands for. -/
def Level.operator? : Level → Kind → Option Operator
  | .or, .keyword .or => some (.logical .or)
  | .and, .keyword .and => some (.logical .and)
  | .equality, .symbol .bangEqual => some (.binary .notEqual)
  | .equality, .symbol .equalEqual => some (.binary .equal)
  | .comparison, .symbol .greater => some (.binary .greater)
  | .comparison, .symbol .greaterEqual => some (.binary .greaterEqual)
  | .comparison, .symbol .less => some (.binary .less)
  | .comparison, .symbol .lessEqual => some (.binary .lessEqual)
  | .sum, .symbol .minus => some (.binary .subtract)
  | .sum, .symbol .plus => some (.binary .add)
  | .product, .symbol .slash => some (.binary .divide)
  | .product, .symbol .star => some (.binary .multiply)
  | _, _ => none

/-! ## 2. The reader's state -/

/-- What reading has left, and what it has found. -/
structure ParseState where
  /-- The tokens still to be read. -/
  rest : List Token
  /-- The line of the end of the program. -/
  lastLine : Nat
  nextId : Id
  /-- The errors recorded so far, in the order of their recording. -/
  errors : List SyntaxError

/-- An error at the next token, or at the end of the program. -/
def ParseState.errorHere (state : ParseState) (cause : SyntaxCause) : SyntaxError :=
  match state.rest with
  | [] => ⟨state.lastLine, none, cause⟩
  | token :: _ => ⟨token.line, some token.lexeme, cause⟩

/-- Why reading a phrase ended without one. -/
inductive ParseStop where
  | error (error : SyntaxError)
  | outOfFuel

/-- Reading a phrase. -/
abbrev Parse := EStateM ParseStop ParseState

namespace Parse

/-- Ends the phrase for want of fuel. -/
def outOfFuel {α : Type} : Parse α := throw .outOfFuel

/-- Ends the phrase with an error at the next token. -/
def failHere {α : Type} (cause : SyntaxCause) : Parse α := fun state =>
  .error (.error (state.errorHere cause)) state

/-- Records an error without ending the phrase. -/
def record (error : SyntaxError) : Parse Unit :=
  modify fun state => { state with errors := state.errors ++ [error] }

/-- Records an error at the next token without ending the phrase. -/
def recordHere (cause : SyntaxCause) : Parse Unit := do
  record ((← get).errorHere cause)

/-- The next token. -/
def peek? : Parse (Option Token) := return (← get).rest.head?

/-- The kind of the next token. -/
def peekKind? : Parse (Option Kind) := return (← peek?).map Token.kind

/-- Steps over the next token. -/
def advance : Parse Unit := modify fun state => { state with rest := state.rest.tail }

/-- An id that no other node has. -/
def freshId : Parse Id :=
  modifyGet fun state => (state.nextId, { state with nextId := state.nextId + 1 })

/-- Whether the next token is a given symbol. -/
def nextIs (symbol : Symbol) : Parse Bool := return (← peek?).any (·.isSymbol symbol)

/-- Whether nothing is left to be read. -/
def atEnd : Parse Bool := return (← get).rest.isEmpty

/-- Steps over the next token if it is a given symbol, and says whether it was. -/
def skip (symbol : Symbol) : Parse Bool := do
  if ← nextIs symbol then
    advance
    return true
  else return false

/-- Steps over the mark that must stand at a place, and gives its line. -/
def expect (place : Place) : Parse Nat := do
  match ← peek? with
  | some token =>
    if token.isSymbol place.mark then
      advance
      return token.line
    else failHere (.missingMark place)
  | none => failHere (.missingMark place)

/-- Steps over a name, and gives it. -/
def expectName (role : NameRole) : Parse Name := do
  match ← peek? with
  | some ⟨.identifier, lexeme, line⟩ =>
    advance
    return ⟨lexeme, line⟩
  | _ => failHere (.missingName role)

/-- Steps over an operator of a level, if one is next, and gives it with its line. -/
def operator? (level : Level) : Parse (Option (Operator × Nat)) := do
  match ← peek? with
  | none => return none
  | some token =>
    match level.operator? token.kind with
    | none => return none
    | some op =>
      advance
      return some (op, token.line)

/-- Steps over a unary operator, if one is next, and gives it with its line. -/
def unaryOperator? : Parse (Option (UnaryOp × Nat)) := do
  match ← peek? with
  | some ⟨.symbol .bang, _, line⟩ =>
    advance
    return some (.not, line)
  | some ⟨.symbol .minus, _, line⟩ =>
    advance
    return some (.negate, line)
  | _ => return none

/-! ## 3. Expressions -/

mutual

/-- An expression; an assignment is right-associative.  A target that cannot be assigned to is
recorded at its `=` and dropped. -/
def expression : Nat → Parse Expr
  | 0 => outOfFuel
  | fuel + 1 => do
    let target ← ladder fuel .or
    match ← peek? with
    | some ⟨.symbol .equal, lexeme, line⟩ =>
      advance
      let value ← expression fuel
      match target with
      | .variable v => return .assign ⟨← freshId, v.name⟩ value
      | .get object property => return .set object property value
      | _ =>
        record ⟨line, some lexeme, .invalidTarget⟩
        return value
    | _ => return target

/-- An expression of a level of precedence: operands joined by operators of the level. -/
def ladder : Nat → Level → Parse Expr
  | 0, _ => outOfFuel
  | fuel + 1, level => do
    let left ← operand fuel level
    ladderRest fuel level left

/-- An operand of a level. -/
def operand : Nat → Level → Parse Expr
  | 0, _ => outOfFuel
  | fuel + 1, level =>
    match level.tighter? with
    | some tighter => ladder fuel tighter
    | none => unary fuel

/-- The operators and operands of a level that follow a left operand. -/
def ladderRest : Nat → Level → Expr → Parse Expr
  | 0, _, _ => outOfFuel
  | fuel + 1, level, left => do
    match ← operator? level with
    | none => return left
    | some (op, line) =>
      let right ← operand fuel level
      ladderRest fuel level (op.apply line left right)

/-- Unary operators in front of an expression that calls and properties may follow. -/
def unary : Nat → Parse Expr
  | 0 => outOfFuel
  | fuel + 1 => do
    match ← unaryOperator? with
    | some (op, line) => return .unary op line (← unary fuel)
    | none => callRest fuel (← primary fuel)

/-- The calls and properties that follow an expression. -/
def callRest : Nat → Expr → Parse Expr
  | 0, _ => outOfFuel
  | fuel + 1, callee => do
    match ← peekKind? with
    | some (.symbol .leftParen) =>
      advance
      let values ← if ← nextIs .rightParen then pure [] else arguments fuel 0
      let line ← expect .afterArguments
      callRest fuel (.call callee values line)
    | some (.symbol .dot) =>
      advance
      let property ← expectName .property
      callRest fuel (.get callee property)
    | _ => return callee

/-- The arguments of a call from the given one on; each past the limit is recorded. -/
def arguments : Nat → (count : Nat) → Parse (List Expr)
  | 0, _ => outOfFuel
  | fuel + 1, count => do
    if maxArguments ≤ count then recordHere .tooManyArguments
    let value ← expression fuel
    if ← skip .comma then return value :: (← arguments fuel (count + 1))
    else return [value]

/-- The elements of a list, of which there may be any number. -/
def elements : Nat → Parse (List Expr)
  | 0 => outOfFuel
  | fuel + 1 => do
    let value ← expression fuel
    if ← skip .comma then return value :: (← elements fuel)
    else return [value]

/-- Literals, names, `this`, `super`, expressions in parentheses and lists. -/
def primary : Nat → Parse Expr
  | 0 => outOfFuel
  | fuel + 1 => do
    match ← peek? with
    | none => failHere .missingExpression
    | some ⟨kind, lexeme, line⟩ =>
      match kind with
      | .keyword .false => advance; return .literal (.boolean false)
      | .keyword .true => advance; return .literal (.boolean true)
      | .keyword .nil => advance; return .literal .nil
      | .number value => advance; return .literal (.number value)
      | .string contents => advance; return .literal (.string contents)
      | .identifier => advance; return .variable ⟨← freshId, ⟨lexeme, line⟩⟩
      | .keyword .this => advance; return .this (← freshId) line
      | .keyword .super =>
        advance
        let _ ← expect .afterSuper
        let method ← expectName .superMethod
        return .super (← freshId) line method
      | .symbol .leftParen =>
        advance
        let inner ← expression fuel
        let _ ← expect .afterGrouping
        return .grouping inner
      | .symbol .leftBracket =>
        advance
        let values ← if ← nextIs .rightBracket then pure [] else elements fuel
        let _ ← expect .afterElements
        return .list line values
      | _ => failHere .missingExpression

end

/-! ## 4. Statements -/

/-- The loop that a `for` stands for: the initializer runs once, in a scope around the loop, and
the increment runs after each turn of the body. -/
def forLoop (initializer : Option Stmt) (condition : Expr) (increment : Option Expr)
    (body : Stmt) : Stmt :=
  let turn := match increment with
    | some step => .block [body, .expression step]
    | none => body
  match initializer with
  | some first => .block [first, .whileLoop condition turn]
  | none => .whileLoop condition turn

/-- The parameters of a function from the given one on; each past the limit is recorded. -/
def parameters : Nat → (count : Nat) → Parse (List Name)
  | 0, _ => outOfFuel
  | fuel + 1, count => do
    if maxArguments ≤ count then recordHere .tooManyParameters
    let name ← expectName .parameter
    if ← skip .comma then return name :: (← parameters fuel (count + 1))
    else return [name]

/-- A variable declaration after its keyword. -/
def varDeclaration (fuel : Nat) : Parse Stmt := do
  let name ← expectName .variableName
  let initializer ← if ← skip .equal then some <$> expression fuel else pure none
  let _ ← expect .afterVariable
  return .varDecl name initializer

/-- An expression that stands as a statement. -/
def expressionStatement (fuel : Nat) : Parse Stmt := do
  let value ← expression fuel
  let _ ← expect .afterStatement
  return .expression value

mutual

/-- A declaration or a statement. -/
def declaration : Nat → Parse Stmt
  | 0 => outOfFuel
  | fuel + 1 => do
    match ← peekKind? with
    | some (.keyword .class) => advance; classDeclaration fuel
    | some (.keyword .fun) => advance; return .funDecl (← function fuel .function)
    | some (.keyword .var) => advance; varDeclaration fuel
    | _ => statement fuel

/-- A class declaration after its keyword. -/
def classDeclaration : Nat → Parse Stmt
  | 0 => outOfFuel
  | fuel + 1 => do
    let name ← expectName .className
    let superclass ← if ← skip .less then do
        let superName ← expectName .superclassName
        pure (some ⟨← freshId, superName⟩)
      else pure none
    let _ ← expect .beforeClassBody
    let methods ← methods fuel
    let _ ← expect .afterClassBody
    return .classDecl name superclass methods

/-- The methods up to the end of a class body. -/
def methods : Nat → Parse (List FunDecl)
  | 0 => outOfFuel
  | fuel + 1 => do
    if (← nextIs .rightBrace) || (← atEnd) then return []
    else
      let method ← function fuel .method
      return method :: (← methods fuel)

/-- A function or method from its name on. -/
def function : Nat → FunKind → Parse FunDecl
  | 0, _ => outOfFuel
  | fuel + 1, kind => do
    let name ← expectName (.declared kind)
    let _ ← expect (.afterName kind)
    let params ← if ← nextIs .rightParen then pure [] else parameters fuel 0
    let _ ← expect .afterParameters
    let _ ← expect (.beforeBody kind)
    return ⟨name, params, ← block fuel⟩

/-- The declarations of a block after its opening brace, up to and with the closing one. -/
def block : Nat → Parse (List Stmt)
  | 0 => outOfFuel
  | fuel + 1 => do
    if (← nextIs .rightBrace) || (← atEnd) then
      let _ ← expect .afterBlock
      return []
    else
      let first ← declaration fuel
      return first :: (← block fuel)

/-- A statement; the bodies of branches and loops are statements too. -/
def statement : Nat → Parse Stmt
  | 0 => outOfFuel
  | fuel + 1 => do
    match ← peek? with
    | some ⟨.keyword .if, _, _⟩ => advance; ifStatement fuel
    | some ⟨.keyword .print, _, line⟩ =>
      advance
      let value ← expression fuel
      let _ ← expect .afterValue
      return .print line value
    | some ⟨.keyword .return, _, line⟩ =>
      advance
      let value ← if ← nextIs .semicolon then pure none else some <$> expression fuel
      let _ ← expect .afterReturn
      return .ret line value
    | some ⟨.symbol .leftBrace, _, _⟩ => advance; return .block (← block fuel)
    | some ⟨.keyword .while, _, _⟩ =>
      advance
      let _ ← expect .afterWhile
      let condition ← expression fuel
      let _ ← expect .afterCondition
      return .whileLoop condition (← statement fuel)
    | some ⟨.keyword .for, _, _⟩ => advance; forStatement fuel
    | some ⟨.keyword .foreach, _, line⟩ => advance; foreachStatement fuel line
    | _ => expressionStatement fuel

/-- An `if` after its keyword; an `else` belongs to the nearest one. -/
def ifStatement : Nat → Parse Stmt
  | 0 => outOfFuel
  | fuel + 1 => do
    let _ ← expect .afterIf
    let condition ← expression fuel
    let _ ← expect .afterIfCondition
    let thenBranch ← statement fuel
    match ← peekKind? with
    | some (.keyword .else) =>
      advance
      return .ifElse condition thenBranch (some (← statement fuel))
    | _ => return .ifElse condition thenBranch none

/-- A `for` after its keyword. -/
def forStatement : Nat → Parse Stmt
  | 0 => outOfFuel
  | fuel + 1 => do
    let _ ← expect .afterFor
    let initializer ← match ← peekKind? with
      | some (.symbol .semicolon) => do
        advance
        pure none
      | some (.keyword .var) => do
        advance
        some <$> varDeclaration fuel
      | _ => some <$> expressionStatement fuel
    let condition ← if ← nextIs .semicolon then pure (.literal (.boolean true))
      else expression fuel
    let _ ← expect .afterLoopCondition
    let increment ← if ← nextIs .rightParen then pure none else some <$> expression fuel
    let _ ← expect .afterForClauses
    return forLoop initializer condition increment (← statement fuel)

/-- A `foreach` after its keyword. -/
def foreachStatement : Nat → (line : Nat) → Parse Stmt
  | 0, _ => outOfFuel
  | fuel + 1, line => do
    let _ ← expect .afterForeach
    match ← peekKind? with
    | some (.keyword .var) => advance
    | _ => pure ()
    let name ← expectName .loopVariable
    let _ ← expect .afterLoopVariable
    let iterable ← expression fuel
    let _ ← expect .afterForeachClauses
    return .forEach line name iterable (← statement fuel)

end

/-! ## 5. Programs -/

/-- The tokens from the next place on where a statement can begin, after a token that has been
stepped over: behind a semicolon, or at a keyword that begins statements. -/
def resumeAfter : Token → List Token → List Token
  | _, [] => []
  | previous, token :: rest =>
    if previous.isSymbol .semicolon || token.startsStatement then token :: rest
    else resumeAfter token rest

/-- Where reading resumes after an error: at least one token is stepped over. -/
def resume : List Token → List Token
  | [] => []
  | token :: rest => resumeAfter token rest

/-- The declarations up to the end of the program, at most `turns` attempts at one.  An error is
recorded, and reading resumes behind it. -/
def declarations (fuel : Nat) : (turns : Nat) → Parse (List Stmt)
  | 0 => do if ← atEnd then return [] else outOfFuel
  | turns + 1 => do
    if ← atEnd then return []
    else fun state =>
      match declaration fuel state with
      | .ok first state =>
        match declarations fuel turns state with
        | .ok rest state => .ok (first :: rest) state
        | .error stop state => .error stop state
      | .error (.error error) state =>
        declarations fuel turns
          { state with rest := resume state.rest, errors := state.errors ++ [error] }
      | .error .outOfFuel state => .error .outOfFuel state

/-- The depth of calls that reading any phrase of so many tokens stays below. -/
def fuelFor (tokenCount : Nat) : Nat := 32 * (tokenCount + 1)

end Parse

/-- Why there is no program to run. -/
inductive ParseFailure where
  | errors (errors : List SyntaxError)
  | outOfFuel

/-- The program of a token stream, or its errors, and the first id that is free afterwards. -/
structure Parsed where
  result : Except ParseFailure (List Stmt)
  nextId : Id

/-- Reads a whole program, with ids from a given one on. -/
def parse (stream : TokenStream) (firstId : Id) : Parsed :=
  let count := stream.tokens.length
  match Parse.declarations (Parse.fuelFor count) count
      ⟨stream.tokens, stream.lastLine, firstId, []⟩ with
  | .ok statements state =>
    if state.errors.isEmpty then ⟨.ok statements, state.nextId⟩
    else ⟨.error (.errors state.errors), state.nextId⟩
  | .error _ state => ⟨.error .outOfFuel, state.nextId⟩

end Lox
