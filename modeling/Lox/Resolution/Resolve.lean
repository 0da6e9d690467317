/-
# Resolving names

A walk over a program that keeps the stack of local scopes around the current node, innermost
first.  A name is bound in the innermost scope that declares it, and the number of scopes in
between is filed under the node's id; a name that no scope declares is global.  Top-level code has
no local scope.

A `var` declares its name before its initializer is resolved and makes it ready afterwards, so a
read of the name in between is told from a read of an outer variable.  Static errors are collected
in the order of the walk.
-/
import Lox.Bindings
import Lox.Resolution.Basic
import Lox.Resolution.Error

namespace Lox

/-- The function that code stands in. -/
inductive FunContext where
  | none | function | method | initializer
  deriving DecidableEq, Repr

/-- The class that code stands in. -/
inductive ClassContext where
  | none | base | derived
  deriving DecidableEq, Repr

/-- Where code stands. -/
structure ResolveContext where
  function : FunContext
  «class» : ClassContext

/-- The names declared in a local scope, each with whether it is ready to be read. -/
abbrev LocalScope := Bindings Bool

/-- What a walk has found so far, and the scopes around the current node, innermost first. -/
structure ResolveState where
  scopes : List LocalScope
  resolution : Resolution
  errors : List ResolutionError

/-- A step of the walk. -/
abbrev Resolve := StateM ResolveState

namespace Resolve

/-! ## 1. Scopes and names -/

/-- Records a static error. -/
def report (place : Name) (cause : ResolutionCause) : Resolve Unit :=
  modify fun state => { state with errors := state.errors ++ [⟨place, cause⟩] }

/-- Opens a local scope. -/
def pushScope : Resolve Unit :=
  modify fun state => { state with scopes := .empty :: state.scopes }

/-- Closes the innermost scope. -/
def popScope : Resolve Unit :=
  modify fun state => { state with scopes := state.scopes.tail }

/-- Enters a name in the innermost scope; top-level code has none. -/
def bind (name : String) (ready : Bool) : Resolve Unit :=
  modify fun state =>
    match state.scopes with
    | [] => state
    | scope :: outer => { state with scopes := scope.insert name ready :: outer }

/-- Declares a name, which is not ready until it is defined. -/
def declare (name : Name) : Resolve Unit := do
  let taken := (← get).scopes.head?.any (·.contains name.text)
  bind name.text false
  if taken then report name .redeclared

/-- Makes a declared name ready. -/
def define (name : Name) : Resolve Unit := bind name.text true

/-- The number of scopes between the current node and the innermost one with a name. -/
def hops? (name : String) : List LocalScope → Option Nat
  | [] => none
  | scope :: outer =>
    if scope.contains name then some 0 else (hops? name outer).map (· + 1)

/-- Files the hops of a node, if its name is local. -/
def file (id : Id) (name : String) : Resolve Unit :=
  modify fun state =>
    match hops? name state.scopes with
    | some hops => { state with resolution := state.resolution.insert id hops }
    | none => state

/-- Resolves a read of a variable. -/
def readVariable (v : Variable) : Resolve Unit := do
  let unready := (← get).scopes.head?.any (·.get? v.name.text = some false)
  if unready then report v.name .readInInitializer
  file v.id v.name.text

/-! ## 2. Expressions and statements -/

mutual

/-- Resolves an expression; the value of an assignment comes before its target. -/
def expr (context : ResolveContext) : Expr → Resolve Unit
  | .literal _ => pure ()
  | .grouping inner => expr context inner
  | .unary _ _ operand => expr context operand
  | .binary _ _ left right => do
    expr context left
    expr context right
  | .logical _ _ left right => do
    expr context left
    expr context right
  | .variable v => readVariable v
  | .assign target value => do
    expr context value
    file target.id target.name.text
  | .call callee arguments _ => do
    expr context callee
    exprs context arguments
  | .get object _ => expr context object
  | .set object _ value => do
    expr context value
    expr context object
  | .this id line =>
    match context.class with
    | .none => report ⟨"this", line⟩ .thisOutsideClass
    | .base | .derived => file id "this"
  | .super id line _ =>
    match context.class with
    | .none => report ⟨"super", line⟩ .superOutsideClass
    | .base => report ⟨"super", line⟩ .superWithoutSuperclass
    | .derived => file id "super"
  | .list _ elements => exprs context elements

/-- Resolves expressions from left to right. -/
def exprs (context : ResolveContext) : List Expr → Resolve Unit
  | [] => pure ()
  | e :: es => do
    expr context e
    exprs context es

end

/-- Resolves an expression where there may be none. -/
def optionalExpr (context : ResolveContext) : Option Expr → Resolve Unit
  | none => pure ()
  | some e => expr context e

/-- Declares the parameters of a function. -/
def params : List Name → Resolve Unit
  | [] => pure ()
  | name :: names => do
    declare name
    define name
    params names

/-- The context of a method's body. -/
def methodContext (declaration : FunDecl) (context : ResolveContext) : ResolveContext :=
  { context with function := if declaration.isInitializer then .initializer else .method }

/-- Resolves the superclass of a class, and opens the scope in which its methods find `super`. -/
def superclass (context : ResolveContext) (name : Name) : Option Variable → Resolve Unit
  | none => pure ()
  | some parent => do
    if parent.name.text = name.text then report parent.name .selfInheritance
    expr { context with «class» := .derived } (.variable parent)
    pushScope
    bind "super" true

mutual

/-- Resolves a statement.  Functions and classes are ready before their bodies are resolved. -/
def stmt (context : ResolveContext) : Stmt → Resolve Unit
  | .print _ value => expr context value
  | .expression value => expr context value
  | .varDecl name initializer => do
    declare name
    optionalExpr context initializer
    define name
  | .block body => do
    pushScope
    stmts context body
    popScope
  | .ifElse condition thenBranch elseBranch => do
    expr context condition
    stmt context thenBranch
    optionalStmt context elseBranch
  | .whileLoop condition body => do
    expr context condition
    stmt context body
  | .forEach _ name iterable body => do
    expr context iterable
    pushScope
    declare name
    define name
    stmt context body
    popScope
  | .funDecl declaration => do
    declare declaration.name
    define declaration.name
    function { context with function := .function } declaration
  | .ret line value => do
    if context.function = .none then report ⟨"return", line⟩ .returnAtTopLevel
    if value.isSome ∧ context.function = .initializer then
      report ⟨"return", line⟩ .returnFromInitializer
    optionalExpr context value
  | .classDecl name parent methods => do
    declare name
    define name
    superclass context name parent
    pushScope
    bind "this" true
    let kind := if parent.isSome then .derived else .base
    methodDecls { context with «class» := kind } methods
    popScope
    if parent.isSome then popScope

/-- A statement where there may be none. -/
def optionalStmt (context : ResolveContext) : Option Stmt → Resolve Unit
  | none => pure ()
  | some s => stmt context s

/-- Resolves statements in order. -/
def stmts (context : ResolveContext) : List Stmt → Resolve Unit
  | [] => pure ()
  | s :: rest => do
    stmt context s
    stmts context rest

/-- A function, whose parameters and body share a scope. -/
def function (context : ResolveContext) : FunDecl → Resolve Unit
  | ⟨_, names, body⟩ => do
    pushScope
    params names
    stmts context body
    popScope

/-- Resolves the methods of a class. -/
def methodDecls (context : ResolveContext) : List FunDecl → Resolve Unit
  | [] => pure ()
  | method :: rest => do
    function (methodContext method context) method
    methodDecls context rest

end

end Resolve

/-- Resolves a whole program: its resolution, or all its static errors. -/
def resolve (program : List Stmt) : Except (List ResolutionError) Resolution :=
  let ((), state) := (Resolve.stmts ⟨.none, .none⟩ program).run ⟨[], .empty, []⟩
  if state.errors.isEmpty then .ok state.resolution else .error state.errors

end Lox
