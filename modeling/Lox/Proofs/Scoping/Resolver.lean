/-
# A walk that keeps where it stands

`Resolve` is told at each node in which function and in which class the node stands.  Here the walk
keeps these two beside the scopes, the resolution and the errors (`Resolver`): it sets them where it
goes into a function or a class, and puts back by hand what was there before, as it opens and closes
scopes by hand.  Nothing in a step says that it comes back to where it started.

`Performs` is what a step does in terms of `Resolve`, with the places that it leads from and to; §2
proves it of every construct, one case for each.  So the walk comes back each time, and over a whole
program it is `resolve` (`Resolver.resolve_eq`).
-/
import Lox.Resolution.Resolve

namespace Lox

/-- A walk, with all that it keeps: where it stands, and what it has found. -/
structure Resolver where
  context : ResolveContext
  found : ResolveState

namespace Resolver

/-- A step of a walk. -/
abbrev Step := StateM Resolver

/-! ## 1. The walk

The walk is written down as it runs, with a state that has everything in it. -/

/-- A step that does not depend on where the walk stands. -/
def lift (step : Resolve Unit) : Step Unit :=
  modify fun walk => { walk with found := (step.run walk.found).2 }

/-- Notes the function that the walk is in now. -/
def setFunction (kind : FunContext) : Step Unit :=
  modify fun walk => { walk with context := { walk.context with function := kind } }

/-- Notes the class that the walk is in now. -/
def setClass (kind : ClassContext) : Step Unit :=
  modify fun walk => { walk with context := { walk.context with «class» := kind } }

open Resolve (report pushScope popScope bind declare define file readVariable params)

mutual

/-- Resolves an expression. -/
def expr : Expr → Step Unit
  | .literal _ => pure ()
  | .grouping inner => expr inner
  | .unary _ _ operand => expr operand
  | .binary _ _ left right => do
    expr left
    expr right
  | .logical _ _ left right => do
    expr left
    expr right
  | .variable v => lift (readVariable v)
  | .assign target value => do
    expr value
    lift (file target.id target.name.text)
  | .call callee arguments _ => do
    expr callee
    exprs arguments
  | .get object _ => expr object
  | .set object _ value => do
    expr value
    expr object
  | .this id line => do
    match (← get).context.class with
    | .none => lift (report ⟨"this", line⟩ .thisOutsideClass)
    | .base | .derived => lift (file id "this")
  | .super id line _ => do
    match (← get).context.class with
    | .none => lift (report ⟨"super", line⟩ .superOutsideClass)
    | .base => lift (report ⟨"super", line⟩ .superWithoutSuperclass)
    | .derived => lift (file id "super")
  | .list _ elements => exprs elements

/-- Resolves expressions from left to right. -/
def exprs : List Expr → Step Unit
  | [] => pure ()
  | e :: es => do
    expr e
    exprs es

end

/-- Resolves an expression where there may be none. -/
def optionalExpr : Option Expr → Step Unit
  | none => pure ()
  | some e => expr e

/-- Resolves the superclass of a class, for which the walk is in a class with a superclass from here
on, and opens the scope of `super`. -/
def superclass (name : Name) : Option Variable → Step Unit
  | none => pure ()
  | some parent => do
    setClass .derived
    if parent.name.text = name.text then lift (report parent.name .selfInheritance)
    expr (.variable parent)
    lift pushScope
    lift (bind "super" true)

mutual

/-- Resolves a statement. -/
def stmt : Stmt → Step Unit
  | .print _ value => expr value
  | .expression value => expr value
  | .varDecl name initializer => do
    lift (declare name)
    optionalExpr initializer
    lift (define name)
  | .block body => do
    lift pushScope
    stmts body
    lift popScope
  | .ifElse condition thenBranch elseBranch => do
    expr condition
    stmt thenBranch
    optionalStmt elseBranch
  | .whileLoop condition body => do
    expr condition
    stmt body
  | .forEach _ name iterable body => do
    expr iterable
    lift pushScope
    lift (declare name)
    lift (define name)
    stmt body
    lift popScope
  | .funDecl declaration => do
    lift (declare declaration.name)
    lift (define declaration.name)
    function .function declaration
  | .ret line value => do
    if (← get).context.function = .none then lift (report ⟨"return", line⟩ .returnAtTopLevel)
    if value.isSome ∧ (← get).context.function = .initializer then
      lift (report ⟨"return", line⟩ .returnFromInitializer)
    optionalExpr value
  | .classDecl name parent methods => do
    let enclosing := (← get).context.class
    setClass .base
    lift (declare name)
    lift (define name)
    superclass name parent
    lift pushScope
    lift (bind "this" true)
    methodDecls methods
    lift popScope
    if parent.isSome then lift popScope
    setClass enclosing

/-- A statement where there may be none. -/
def optionalStmt : Option Stmt → Step Unit
  | none => pure ()
  | some s => stmt s

/-- Resolves statements in order. -/
def stmts : List Stmt → Step Unit
  | [] => pure ()
  | s :: rest => do
    stmt s
    stmts rest

/-- A function of some kind, whose parameters and body share a scope. -/
def function (kind : FunContext) : FunDecl → Step Unit
  | ⟨_, names, body⟩ => do
    let enclosing := (← get).context.function
    setFunction kind
    lift pushScope
    lift (params names)
    stmts body
    lift popScope
    setFunction enclosing

/-- Resolves the methods of a class. -/
def methodDecls : List FunDecl → Step Unit
  | [] => pure ()
  | method :: rest => do
    function (if method.isInitializer then .initializer else .method) method
    methodDecls rest

end

/-- A walk that has not begun: at the top level, with nothing found. -/
def fresh : Resolver := ⟨⟨.none, .none⟩, ⟨[], .empty, []⟩⟩

/-- Resolves a whole program: its resolution, or all its static errors. -/
def resolve (program : List Stmt) : Except (List ResolutionError) Resolution :=
  let ((), walk) := (stmts program).run fresh
  if walk.found.errors.isEmpty then .ok walk.found.resolution else .error walk.found.errors

/-! ## 2. The walk comes back to where it started

What is set by hand is put back by hand, and this has to be shown construct by construct. -/

/-- A step that starts and ends where it says does what a step of `Resolve` does. -/
def Performs (step : Step Unit) (before after : ResolveContext) (told : Resolve Unit) : Prop :=
  ∀ found, (step.run ⟨before, found⟩).2 = ⟨after, (told.run found).2⟩

namespace Performs

variable {step step' : Step Unit} {before middle after context : ResolveContext}
  {told told' : Resolve Unit}

/-- Doing nothing leads nowhere. -/
theorem nothing (context : ResolveContext) : Performs (pure ()) context context (pure ()) :=
  fun _ => rfl

/-- A step that does not look at the place. -/
theorem lift (told : Resolve Unit) (context : ResolveContext) :
    Performs (Resolver.lift told) context context told :=
  fun _ => rfl

/-- Two steps, where the second begins at the place that the first leads to. -/
theorem andThen (first : Performs step before middle told)
    (second : Performs step' middle after told') :
    Performs (do step; step') before after (do told; told') := by
  intro found
  change (step'.run (step.run ⟨before, found⟩).2).2 = _
  rw [first found]
  exact second _

/-- A step that looks at the walk first. -/
theorem seeing {view : Resolver → Step Unit}
    (h : ∀ found, Performs (view ⟨before, found⟩) before after told) :
    Performs (do view (← get)) before after told :=
  fun found => h found found

/-- Where a step goes into a function, `Resolve` is told. -/
theorem setFunction {kind : FunContext}
    (h : Performs step { before with function := kind } after told) :
    Performs (do Resolver.setFunction kind; step) before after told :=
  h

/-- Where a step goes into a class, `Resolve` is told. -/
theorem setClass {kind : ClassContext}
    (h : Performs step { before with «class» := kind } after told) :
    Performs (do Resolver.setClass kind; step) before after told :=
  h

/-- Where a step goes back to the function that it was in, there is nothing to tell. -/
theorem resetFunction {kind : FunContext} (h : Performs step before middle told) :
    Performs (do step; Resolver.setFunction kind) before { middle with function := kind } told := by
  intro found
  change ((Resolver.setFunction kind).run (step.run ⟨before, found⟩).2).2 = _
  rw [h found]
  rfl

/-- Where a step goes back to the class that it was in, there is nothing to tell. -/
theorem resetClass {kind : ClassContext} (h : Performs step before middle told) :
    Performs (do step; Resolver.setClass kind) before { middle with «class» := kind } told := by
  intro found
  change ((Resolver.setClass kind).run (step.run ⟨before, found⟩).2).2 = _
  rw [h found]
  rfl

/-- A check, and the step behind it. -/
theorem checked {p : Prop} [Decidable p] {note : Resolve Unit}
    (h : Performs step before after told) :
    Performs (if p then (do Resolver.lift note; step) else step) before after
      (if p then (do note; told) else told) := by
  split
  · exact (lift note before).andThen h
  · exact h

end Performs

mutual

/-- Expressions do not change the place. -/
theorem performs_expr (context : ResolveContext) :
    ∀ e : Expr, Performs (expr e) context context (Resolve.expr context e)
  | .literal _ => .nothing context
  | .grouping inner => performs_expr context inner
  | .unary _ _ operand => performs_expr context operand
  | .binary _ _ left right => (performs_expr context left).andThen (performs_expr context right)
  | .logical _ _ left right => (performs_expr context left).andThen (performs_expr context right)
  | .variable v => .lift (readVariable v) context
  | .assign target value =>
    (performs_expr context value).andThen (.lift (file target.id target.name.text) context)
  | .call callee arguments _ =>
    (performs_expr context callee).andThen (performs_exprs context arguments)
  | .get object _ => performs_expr context object
  | .set object _ value => (performs_expr context value).andThen (performs_expr context object)
  | .this id line => by
    obtain ⟨_, inside⟩ := context
    cases inside with
    | none => exact .lift (report ⟨"this", line⟩ .thisOutsideClass) _
    | base => exact .lift (file id "this") _
    | derived => exact .lift (file id "this") _
  | .super id line _ => by
    obtain ⟨_, inside⟩ := context
    cases inside with
    | none => exact .lift (report ⟨"super", line⟩ .superOutsideClass) _
    | base => exact .lift (report ⟨"super", line⟩ .superWithoutSuperclass) _
    | derived => exact .lift (file id "super") _
  | .list _ elements => performs_exprs context elements

theorem performs_exprs (context : ResolveContext) :
    ∀ es : List Expr, Performs (exprs es) context context (Resolve.exprs context es)
  | [] => .nothing context
  | e :: es => (performs_expr context e).andThen (performs_exprs context es)

end

theorem performs_optionalExpr (context : ResolveContext) (e : Option Expr) :
    Performs (optionalExpr e) context context (Resolve.optionalExpr context e) := by
  cases e with
  | none => exact .nothing context
  | some e => exact performs_expr context e

/-- Behind the superclass, the walk is in a class of the right kind. -/
theorem performs_superclass (context : ResolveContext) (name : Name) (parent : Option Variable) :
    Performs (superclass name parent) { context with «class» := .base }
      { context with «class» := if parent.isSome then .derived else .base }
      (Resolve.superclass context name parent) := by
  cases parent with
  | none => exact .nothing _
  | some parent =>
    refine .setClass (.checked ?_)
    exact (performs_expr _ (.variable parent)).andThen
      ((Performs.lift pushScope _).andThen (.lift (bind "super" true) _))

mutual

/-- A statement comes back to its place, if it has gone into a function or a class. -/
theorem performs_stmt (context : ResolveContext) :
    ∀ s : Stmt, Performs (stmt s) context context (Resolve.stmt context s)
  | .print _ value => performs_expr context value
  | .expression value => performs_expr context value
  | .varDecl name initializer =>
    (Performs.lift (declare name) context).andThen
      ((performs_optionalExpr context initializer).andThen (.lift (define name) context))
  | .block body =>
    (Performs.lift pushScope context).andThen
      ((performs_stmts context body).andThen (.lift popScope context))
  | .ifElse condition thenBranch elseBranch =>
    (performs_expr context condition).andThen
      ((performs_stmt context thenBranch).andThen (performs_optionalStmt context elseBranch))
  | .whileLoop condition body =>
    (performs_expr context condition).andThen (performs_stmt context body)
  | .forEach _ name iterable body =>
    (performs_expr context iterable).andThen <|
      (Performs.lift pushScope context).andThen <| (Performs.lift (declare name) context).andThen <|
      (Performs.lift (define name) context).andThen <|
      (performs_stmt context body).andThen (.lift popScope context)
  | .funDecl declaration =>
    (Performs.lift (declare declaration.name) context).andThen <|
      (Performs.lift (define declaration.name) context).andThen <|
      performs_function context .function declaration
  | .ret line value => by
    refine .seeing fun _ => .checked ?_
    refine .seeing fun _ => .checked ?_
    exact performs_optionalExpr context value
  | .classDecl name parent methods => by
    refine .seeing fun _ => .setClass ?_
    refine (Performs.lift (declare name) _).andThen ((Performs.lift (define name) _).andThen ?_)
    refine (performs_superclass context name parent).andThen ?_
    refine (Performs.lift pushScope _).andThen ((Performs.lift (bind "this" true) _).andThen ?_)
    refine (performs_methodDecls _ methods).andThen ?_
    -- The walk goes back to the class that it has noted at the start.
    cases parent with
    | none => exact (Performs.lift popScope { context with «class» := .base }).resetClass
    | some parent =>
      refine (Performs.lift popScope { context with «class» := .derived }).andThen ?_
      exact (Performs.lift popScope { context with «class» := .derived }).resetClass

theorem performs_optionalStmt (context : ResolveContext) :
    ∀ s : Option Stmt, Performs (optionalStmt s) context context (Resolve.optionalStmt context s)
  | none => .nothing context
  | some s => performs_stmt context s

theorem performs_stmts (context : ResolveContext) :
    ∀ body : List Stmt, Performs (stmts body) context context (Resolve.stmts context body)
  | [] => .nothing context
  | s :: rest => (performs_stmt context s).andThen (performs_stmts context rest)

/-- A function is walked over in a place of its own. -/
theorem performs_function (context : ResolveContext) (kind : FunContext) :
    ∀ declaration : FunDecl, Performs (function kind declaration) context context
      (Resolve.function { context with function := kind } declaration)
  | ⟨_, names, body⟩ => by
    refine .seeing fun _ => .setFunction ?_
    refine (Performs.lift pushScope _).andThen ((Performs.lift (params names) _).andThen ?_)
    refine (performs_stmts _ body).andThen ?_
    exact (Performs.lift popScope { context with function := kind }).resetFunction

/-- So are the methods of a class. -/
theorem performs_methodDecls (context : ResolveContext) :
    ∀ methods : List FunDecl,
      Performs (methodDecls methods) context context (Resolve.methodDecls context methods)
  | [] => .nothing context
  | method :: rest =>
    (performs_function context _ method).andThen (performs_methodDecls context rest)

end

/-- **The walk that keeps where it stands resolves a program as `resolve` does.** -/
theorem resolve_eq (program : List Stmt) : Resolver.resolve program = Lox.resolve program := by
  have walk := performs_stmts ⟨.none, .none⟩ program ⟨[], .empty, []⟩
  change (if ((stmts program).run fresh).2.found.errors.isEmpty then
    Except.ok ((stmts program).run fresh).2.found.resolution
    else .error ((stmts program).run fresh).2.found.errors) = _
  rw [fresh, walk]
  rfl

end Resolver

end Lox
