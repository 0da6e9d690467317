/-
# Evaluation

Big-step evaluation of resolved programs.  An expression evaluates to a value; a statement
completes normally or with the value of a `return`, which ends every statement around it up to the
call of the function.  Run-time errors are interrupts of the evaluation.

* `binary` and `unary` are the operators.
* `forEach` loops step a `Cursor`: an instance of a built-in class that holds an iterator is
  stepped directly, anything else by calling its methods `hasItems`, `get` and `move`.
* `run` executes a whole program, one top-level statement after the other.

The functions take fuel, which bounds the depth of their calls.  With too little they end with the
interrupt `outOfFuel`, whose state means nothing.
-/
import Lox.Eval.Builtin

namespace Lox

/-- How a statement ends if nothing interrupts it. -/
inductive Completion where
  | normal
  | returned (value : Value)

/-- The value that a body of a function gives to the call. -/
def Completion.value : Completion → Value
  | .normal => .nil
  | .returned value => value

/-- What a `foreach` loop steps. -/
inductive Cursor where
  /-- An instance that holds an iterator, stepped directly. -/
  | direct (iterator : InstanceId)
  /-- A value that is stepped by calling its methods. -/
  | protocol (iterator : Value)

namespace Eval

/-! ## 1. Operators -/

/-- The value of a unary operator. -/
def unary (op : UnaryOp) (line : Nat) (operand : Value) : Eval Value :=
  match op, operand with
  | .negate, .number x => return .number (-x)
  | .negate, _ => fail .operandNotNumber line
  | .not, value => return .boolean !value.isTruthy

/-- The operators on two numbers other than `+` and equality. -/
def arithmetic (op : BinaryOp) (line : Nat) (x y : Float) : Eval Value :=
  match op with
  | .subtract => return .number (x - y)
  | .multiply => return .number (x * y)
  | .divide => if y == 0 then fail .divisionByZero line else return .number (x / y)
  | .greater => return .boolean (x > y)
  | .greaterEqual => return .boolean (x ≥ y)
  | .less => return .boolean (x < y)
  | .lessEqual => return .boolean (x ≤ y)
  | .add => return .number (x + y)
  | .equal => return .boolean (x == y)
  | .notEqual => return .boolean (x != y)

/-- The value of a binary operator. -/
def binary (op : BinaryOp) (line : Nat) (left right : Value) : Eval Value :=
  match op with
  | .equal => return .boolean (left.equals right)
  | .notEqual => return .boolean !left.equals right
  | .add =>
    match left, right with
    | .number x, .number y => return .number (x + y)
    | .string s, .string t => return .string (s ++ t)
    | _, _ => fail .operandsNotAddable line
  | _ =>
    match left, right with
    | .number x, .number y => arithmetic op line x y
    | _, _ => fail .operandsNotNumbers line

/-- Whether a left operand decides a logical operator. -/
def decides (op : LogicalOp) (left : Value) : Bool :=
  match op with
  | .or => left.isTruthy
  | .and => !left.isTruthy

/-! ## 2. Classes and functions -/

/-- The method that `super` finds: the superclass stands where the resolution says, and the
receiver one scope nearer. -/
def superMethod (id : Id) (line : Nat) (method : Name) : Eval Value := do
  let state ← get
  match state.resolution.binding id with
  | .local (inner + 1) =>
    match state.scopes.getAt? state.scope (inner + 1) "super",
        state.scopes.getAt? state.scope inner "this" with
    | some (.callable (.class superclass)), some (.inst receiver) =>
      match superclass.findMethod? method.text with
      | some found => return .callable (.bound (← bindMethod receiver found))
      | none => fail (.undefinedProperty method.text) method.line
    | none, _ => fail (.undefinedVariable "super") line
    | _, none => fail (.undefinedVariable "this") line
    | _, _ => fail .superclassNotClass line
  | _ => fail (.undefinedVariable "super") line

/-- The closure of a declaration in a scope. -/
def newClosure (declaration : FunDecl) (scope : ScopeId) (isInitializer : Bool) :
    Eval Closure :=
  return ⟨← freshStamp, declaration, scope, isInitializer⟩

/-- The closures of the methods of a class, of which the last one under a name counts. -/
def newMethods (scope : ScopeId) : List FunDecl → Bindings Closure → Eval (Bindings Closure)
  | [], methods => return methods
  | declaration :: rest, methods => do
    let closure ← newClosure declaration scope declaration.isInitializer
    newMethods scope rest (methods.insert declaration.name.text closure)

/-- The class that the variable after `<` holds. -/
def superclassOf (name : Name) : Value → Eval Class
  | .callable (.class cls) => return cls
  | _ => fail .superclassNotClass name.line

/-- The scope in which the methods of a class find `super`: one of its own if there is one. -/
def methodScope : Option Class → Eval ScopeId
  | none => return (← get).scope
  | some superclass => do
    let scope ← childScope
    defineIn scope "super" (.callable (.class superclass))
    return scope

/-- Declares a class whose superclass has been evaluated.  The name is bound before the methods
are made. -/
def declareClass (name : Name) (superclass : Option Class) (methods : List FunDecl) :
    Eval Unit := do
  define name.text .nil
  let scope ← methodScope superclass
  let info := ⟨← freshStamp, name.text, ← newMethods scope methods .empty⟩
  let cls := match superclass with
    | none => .base info
    | some superclass => .derived info superclass
  define name.text (.callable (.class cls))

/-- Binds parameters to arguments in a scope. -/
def defineAll (scope : ScopeId) : List Name → List Value → Eval Unit
  | name :: names, value :: values => do
    defineIn scope name.text value
    defineAll scope names values
  | _, _ => pure ()

/-- What a call of a closure gives: initializers give the receiver, whatever the body does. -/
def callResult (closure : Closure) (completion : Completion) : Eval Value := do
  if closure.isInitializer then
    match (← get).scopes.getAt? closure.scope 0 "this" with
    | some receiver => return receiver
    | none => fail (.undefinedVariable "this") closure.declaration.name.line
  else return completion.value

/-- The cursor that steps what `iterate` gave. -/
def cursorFor (iterator : Value) : Eval Cursor := do
  match iterator with
  | .inst id =>
    let heap := (← get).heap
    if ((heap.class? id).any Class.isBuiltin) && (heap.iterator? id).isSome then
      return .direct id
    else return .protocol iterator
  | _ => return .protocol iterator

/-! ## 3. Expressions, calls and statements -/

mutual

/-- Evaluates an expression, the parts of it from left to right. -/
def eval : (fuel : Nat) → Expr → Eval Value
  | 0, _ => outOfFuel
  | fuel + 1, e =>
    match e with
    | .literal value => return value.toValue
    | .grouping inner => eval fuel inner
    | .unary op line operand => do unary op line (← eval fuel operand)
    | .binary op line left right => do
      let left ← eval fuel left
      let right ← eval fuel right
      binary op line left right
    | .logical op _ left right => do
      let left ← eval fuel left
      if decides op left then return left else eval fuel right
    | .variable v => readVariable v.id v.name.text v.name.line
    | .assign target value => do
      let value ← eval fuel value
      writeVariable target value
      return value
    | .call callee arguments line => do
      let callee ← eval fuel callee
      let arguments ← evalAll fuel arguments
      call fuel callee arguments line
    | .get object property => do
      match ← eval fuel object with
      | .inst id => getProperty id property.text property.line
      | _ => fail .noProperties property.line
    | .set object property value => do
      match ← eval fuel object with
      | .inst id =>
        let value ← eval fuel value
        modifyHeap (·.setField id property.text value)
        return value
      | _ => fail .noFields property.line
    | .this id line => readVariable id "this" line
    | .super id line method => superMethod id line method
    | .list _ elements => do newList (← evalAll fuel elements)

/-- Evaluates expressions from left to right. -/
def evalAll : (fuel : Nat) → List Expr → Eval (List Value)
  | 0, _ => outOfFuel
  | _, [] => return []
  | fuel + 1, e :: es => do
    let value ← eval fuel e
    return value :: (← evalAll fuel es)

/-- Calls a value.  That it can be called, the number of arguments and the number of calls in
progress are checked in this order. -/
def call : (fuel : Nat) → Value → List Value → (line : Nat) → Eval Value
  | 0, _, _, _ => outOfFuel
  | fuel + 1, callee, arguments, line =>
    match callee with
    | .callable callable =>
      if callable.arity = arguments.length then
        nested line (apply fuel callable arguments line)
      else fail (.arity callable.arity arguments.length) line
    | _ => fail .notCallable line

/-- Runs a callable.  A class makes an instance and runs its initializer within the same call. -/
def apply : (fuel : Nat) → Callable → List Value → (line : Nat) → Eval Value
  | 0, _, _, _ => outOfFuel
  | fuel + 1, callable, arguments, line =>
    match callable with
    | .builtin function => callFunction function arguments line
    | .closure closure => applyClosure fuel closure arguments
    | .bound method => applyMethod fuel method arguments line
    | .class cls => do
      let id ← newInstance cls none
      match cls.findMethod? initializerName with
      | some initializer =>
        let _ ← applyMethod fuel (← bindMethod id initializer) arguments line
        return .inst id
      | none => return .inst id

/-- Runs a bound method. -/
def applyMethod : (fuel : Nat) → BoundMethod → List Value → (line : Nat) → Eval Value
  | 0, _, _, _ => outOfFuel
  | fuel + 1, method, arguments, line =>
    match method.method with
    | .builtin builtin => callMethod builtin method.receiver arguments line
    | .declared closure => applyClosure fuel closure arguments

/-- Runs the body of a closure in a new scope that binds its parameters. -/
def applyClosure : (fuel : Nat) → Closure → List Value → Eval Value
  | 0, _, _ => outOfFuel
  | fuel + 1, closure, arguments => do
    let scope ← newScope closure.scope
    defineAll scope closure.declaration.params arguments
    let completion ← within scope (execAll fuel closure.declaration.body)
    callResult closure completion

/-- Calls a property of a value by name. -/
def invoke : (fuel : Nat) → Value → String → List Value → (line : Nat) → Eval Value
  | 0, _, _, _, _ => outOfFuel
  | fuel + 1, receiver, name, arguments, line =>
    match receiver with
    | .inst id => do call fuel (← getProperty id name line) arguments line
    | _ => fail .noProperties line

/-- Executes a statement. -/
def exec : (fuel : Nat) → Stmt → Eval Completion
  | 0, _ => outOfFuel
  | fuel + 1, s =>
    match s with
    | .print line value => do
      printValue (← eval fuel value) line
      return .normal
    | .expression value => do
      let _ ← eval fuel value
      return .normal
    | .varDecl name initializer => do
      define name.text (← evalOptional fuel initializer)
      return .normal
    | .block body => do within (← childScope) (execAll fuel body)
    | .ifElse condition thenBranch elseBranch => do
      if (← eval fuel condition).isTruthy then exec fuel thenBranch
      else
        match elseBranch with
        | some elseBranch => exec fuel elseBranch
        | none => return .normal
    | .whileLoop condition body => whileLoop fuel condition body
    | .forEach line name iterable body => do
      match ← eval fuel iterable with
      | .inst id =>
        let cursor ← cursorFor (← invoke fuel (.inst id) "iterate" [] line)
        forEach fuel cursor line name body
      | _ => fail .notIterable line
    | .funDecl declaration => do
      let closure ← newClosure declaration (← get).scope false
      define declaration.name.text (.callable (.closure closure))
      return .normal
    | .ret _ value => return .returned (← evalOptional fuel value)
    | .classDecl name superclass methods => do
      let superclass ← match superclass with
        | none => pure none
        | some v => some <$> (do superclassOf v.name (← eval fuel (.variable v)))
      declareClass name superclass methods
      return .normal

/-- Evaluates an expression where there may be none; its value then is `nil`. -/
def evalOptional : (fuel : Nat) → Option Expr → Eval Value
  | 0, _ => outOfFuel
  | _, none => return .nil
  | fuel + 1, some e => eval fuel e

/-- Executes statements up to the first that returns. -/
def execAll : (fuel : Nat) → List Stmt → Eval Completion
  | 0, _ => outOfFuel
  | _, [] => return .normal
  | fuel + 1, s :: rest => do
    match ← exec fuel s with
    | .normal => execAll fuel rest
    | .returned value => return .returned value

/-- Executes the body as long as the condition is true. -/
def whileLoop : (fuel : Nat) → (condition : Expr) → (body : Stmt) → Eval Completion
  | 0, _, _ => outOfFuel
  | fuel + 1, condition, body => do
    if (← eval fuel condition).isTruthy then
      match ← exec fuel body with
      | .normal => whileLoop fuel condition body
      | .returned value => return .returned value
    else return .normal

/-- Executes the body once for each element, in a scope of its own that binds the element. -/
def forEach : (fuel : Nat) → Cursor → (line : Nat) → Name → (body : Stmt) → Eval Completion
  | 0, _, _, _, _ => outOfFuel
  | fuel + 1, cursor, line, name, body => do
    if ← cursorHasItems fuel cursor line then
      let scope ← childScope
      defineIn scope name.text (← cursorCurrent fuel cursor line)
      match ← within scope (exec fuel body) with
      | .normal =>
        cursorAdvance fuel cursor line
        forEach fuel cursor line name body
      | .returned value => return .returned value
    else return .normal

/-- Whether a cursor stands at an element. -/
def cursorHasItems : (fuel : Nat) → Cursor → (line : Nat) → Eval Bool
  | 0, _, _ => outOfFuel
  | _, .direct id, line => iteratorHasItems id line
  | fuel + 1, .protocol iterator, line =>
    return (← invoke fuel iterator "hasItems" [] line).isTruthy

/-- The element that a cursor stands at. -/
def cursorCurrent : (fuel : Nat) → Cursor → (line : Nat) → Eval Value
  | 0, _, _ => outOfFuel
  | _, .direct id, line => iteratorCurrent id line
  | fuel + 1, .protocol iterator, line => invoke fuel iterator "get" [] line

/-- Steps a cursor behind its element. -/
def cursorAdvance : (fuel : Nat) → Cursor → (line : Nat) → Eval Unit
  | 0, _, _ => outOfFuel
  | _, .direct id, line => iteratorAdvance id line
  | fuel + 1, .protocol iterator, line => do
    let _ ← invoke fuel iterator "move" [] line
    return ()

end

/-! ## 4. Programs -/

/-- Executes a program.  Each top-level statement has the same fuel; a `return` outside of all
functions, which resolving refuses, would end the program. -/
def run (fuel : Nat) : List Stmt → Eval Unit
  | [] => return ()
  | s :: rest => do
    match ← exec fuel s with
    | .normal => run fuel rest
    | .returned _ => return ()

end Eval

end Lox
