/-
# Occurrences of names in a program, with the static scopes around them

The text of a program shows which local scopes lie around each place: one for every block, call
of a function and turn of a `foreach` loop that the place stands in, and for a method the ones
that bind `this` and `super`.  `StaticScope` is such a scope, with the construct that opens it and
the names declared in it so far.

`Occurrence.ofProgram` lists the places of a program where a name is declared, read or written,
in the order of the text, each with its static scopes, innermost first.  `locate` says in which of
them a name is found, and whether its declaration is complete there.  It is not complete in the
initializer of a `var`, nor, for the name of a class, before the superclass is known.

`Admissible` is what a program without static errors keeps to at each occurrence, and `Filed` says
that a resolution holds the address that `locate` gives.
-/
import Lox.Proofs.Syntax.Grammar
import Lox.Resolution.Resolve

namespace Lox

/-! ## 1. Static scopes -/

/-- What opens a local scope. -/
inductive ScopeOrigin where
  | block (body : List Stmt)
  | iteration (name : Name) (body : Stmt)
  | call (declaration : FunDecl)
  /-- The scope that binds `this` for a method. -/
  | receiver (method : FunDecl)
  /-- The scope that binds `super` for the methods of a class. -/
  | superclass (methods : List FunDecl)

/-- A local scope as the text shows it: what opens it, and the names declared in it so far, each
with whether its declaration is complete. -/
structure StaticScope where
  origin : ScopeOrigin
  names : LocalScope

namespace StaticScope

/-- A scope that declares nothing yet. -/
def fresh (origin : ScopeOrigin) : StaticScope := ⟨origin, .empty⟩

/-- The scope of `this` around a method. -/
def receiver (method : FunDecl) : StaticScope :=
  ⟨.receiver method, Bindings.empty.insert "this" true⟩

/-- The scope of `super` around the methods of a class. -/
def superclass (methods : List FunDecl) : StaticScope :=
  ⟨.superclass methods, Bindings.empty.insert "super" true⟩

/-- Enters a name in the innermost scope; top-level code has none. -/
def bindName (name : String) (complete : Bool) : List StaticScope → List StaticScope
  | [] => []
  | scope :: outer => { scope with names := scope.names.insert name complete } :: outer

/-- Enters the parameters of a function. -/
def bindParams (params : List Name) (scopes : List StaticScope) : List StaticScope :=
  params.foldl (fun scopes name => bindName name.text true scopes) scopes

/-- The innermost scope that declares a name: how many scopes out it lies, and whether the
declaration is complete. -/
def locate (name : String) : List StaticScope → Option (Nat × Bool)
  | [] => none
  | scope :: outer =>
    match scope.names.get? name with
    | some complete => some (0, complete)
    | none => (locate name outer).map fun (hops, complete) => (hops + 1, complete)

end StaticScope

open StaticScope

/-! ## 2. Occurrences -/

/-- What a name does where it occurs. -/
inductive Role where
  | declares
  | reads (id : Id)
  | writes (id : Id)
  | this (id : Id)
  | super (id : Id)

/-- The id of the node, if there is one. -/
def Role.id? : Role → Option Id
  | .declares => none
  | .reads id | .writes id | .this id | .super id => some id

/-- A place where a name occurs, with the static scopes around it, innermost first. -/
structure Occurrence where
  role : Role
  name : String
  scopes : List StaticScope

/-- The static scopes behind a statement. -/
def Stmt.after (scopes : List StaticScope) (s : Stmt) : List StaticScope :=
  match s.declared? with
  | some name => bindName name.text true scopes
  | none => scopes

namespace Occurrence

/-- The declaration of a name. -/
def declaring (scopes : List StaticScope) (name : Name) : Occurrence :=
  ⟨.declares, name.text, scopes⟩

/-- A read of a variable. -/
def reading (scopes : List StaticScope) (v : Variable) : Occurrence :=
  ⟨.reads v.id, v.name.text, scopes⟩

mutual

/-- The occurrences in an expression; the target of an assignment comes behind the value. -/
def ofExpr (scopes : List StaticScope) : Expr → List Occurrence
  | .literal _ => []
  | .grouping inner => ofExpr scopes inner
  | .unary _ _ operand => ofExpr scopes operand
  | .binary _ _ left right => ofExpr scopes left ++ ofExpr scopes right
  | .logical _ _ left right => ofExpr scopes left ++ ofExpr scopes right
  | .variable v => [reading scopes v]
  | .assign target value =>
    ofExpr scopes value ++ [⟨.writes target.id, target.name.text, scopes⟩]
  | .call callee arguments _ => ofExpr scopes callee ++ ofExprs scopes arguments
  | .get object _ => ofExpr scopes object
  | .set object _ value => ofExpr scopes value ++ ofExpr scopes object
  | .this id _ => [⟨.this id, "this", scopes⟩]
  | .super id _ _ => [⟨.super id, "super", scopes⟩]
  | .list _ elements => ofExprs scopes elements

/-- The occurrences in a list of expressions. -/
def ofExprs (scopes : List StaticScope) : List Expr → List Occurrence
  | [] => []
  | e :: es => ofExpr scopes e ++ ofExprs scopes es

end

/-- The occurrences in an expression, where there may be none. -/
def ofOptional (scopes : List StaticScope) : Option Expr → List Occurrence
  | none => []
  | some e => ofExpr scopes e

/-- The declarations of the parameters of a function. -/
def ofParams (scopes : List StaticScope) : List Name → List Occurrence
  | [] => []
  | name :: rest => declaring scopes name :: ofParams (bindName name.text true scopes) rest

/-- The scopes around the methods of a class, that of `this` apart. -/
def methodScopes (scopes : List StaticScope) (superclass : Option Variable)
    (methods : List FunDecl) : List StaticScope :=
  match superclass with
  | some _ => StaticScope.superclass methods :: scopes
  | none => scopes

mutual

/-- The occurrences in a statement. -/
def ofStmt (scopes : List StaticScope) : Stmt → List Occurrence
  | .print _ value => ofExpr scopes value
  | .expression value => ofExpr scopes value
  | .varDecl name initializer =>
    declaring scopes name :: ofOptional (bindName name.text false scopes) initializer
  | .block body => ofStmts (fresh (.block body) :: scopes) body
  | .ifElse condition thenBranch elseBranch =>
    ofExpr scopes condition ++ ofStmt scopes thenBranch ++ ofOptionalStmt scopes elseBranch
  | .whileLoop condition body => ofExpr scopes condition ++ ofStmt scopes body
  | .forEach _ name iterable body =>
    let turn := fresh (.iteration name body) :: scopes
    ofExpr scopes iterable ++ declaring turn name :: ofStmt (bindName name.text true turn) body
  | .funDecl declaration =>
    declaring scopes declaration.name ::
      ofFunction (bindName declaration.name.text true scopes) declaration
  | .ret _ value => ofOptional scopes value
  | .classDecl name superclass methods =>
    declaring scopes name ::
      (superclass.map (reading (bindName name.text false scopes))).toList ++
      ofMethods (methodScopes (bindName name.text true scopes) superclass methods) methods

/-- The occurrences in a statement, where there may be none. -/
def ofOptionalStmt (scopes : List StaticScope) : Option Stmt → List Occurrence
  | none => []
  | some s => ofStmt scopes s

/-- The occurrences in statements that stand one after the other. -/
def ofStmts (scopes : List StaticScope) : List Stmt → List Occurrence
  | [] => []
  | s :: rest => ofStmt scopes s ++ ofStmts (s.after scopes) rest

/-- The occurrences in a function, whose parameters and body share a scope. -/
def ofFunction (scopes : List StaticScope) : FunDecl → List Occurrence
  | ⟨name, params, body⟩ =>
    let opened := fresh (.call ⟨name, params, body⟩) :: scopes
    ofParams opened params ++ ofStmts (bindParams params opened) body

/-- The occurrences in the methods of a class, each of which has a scope of its own for `this`. -/
def ofMethods (scopes : List StaticScope) : List FunDecl → List Occurrence
  | [] => []
  | method :: rest =>
    ofFunction (StaticScope.receiver method :: scopes) method ++ ofMethods scopes rest

end

/-- The occurrences in a program. -/
def ofProgram (program : List Stmt) : List Occurrence := ofStmts [] program

/-! ## 3. What resolving makes of an occurrence -/

/-- Where the name is bound: in the static scope that has it, or else among the globals. -/
def binding (o : Occurrence) : Binding :=
  match locate o.name o.scopes with
  | some (hops, _) => .local hops
  | none => .global

/-- A resolution files an occurrence under the id of its node. -/
def Filed (resolution : Resolution) (o : Occurrence) : Prop :=
  ∀ id, o.role.id? = some id → resolution.binding id = o.binding

/-- What holds at an occurrence if there is no static error at it.  A declaration is the first of
its name in its scope; a name that is read has been declared completely; only the name that the
statement around it declares may be written before that; `this` and `super` are found in the
scopes that bind them, which lie next to each other. -/
def Admissible (o : Occurrence) : Prop :=
  match o.role with
  | .declares => Ordinary o.name ∧ o.scopes.head?.all (fun scope => !scope.names.contains o.name)
  | .reads _ => ∀ hops complete, locate o.name o.scopes = some (hops, complete) → complete = true
  | .writes _ => Ordinary o.name ∧ ∀ hops, locate o.name o.scopes = some (hops, false) → hops = 0
  | .this _ => ∃ hops, locate "this" o.scopes = some (hops, true)
  | .super _ => ∃ hops, locate "this" o.scopes = some (hops, true) ∧
      locate "super" o.scopes = some (hops + 1, true)

end Occurrence

end Lox
