/-
# What every program that has been read is like

`Stmt.ids` are the ids of the nodes of a statement that refer to names.  `Stmt.Grammatical` says
what the grammar sees to besides the shape of the tree: only names that are not reserved are
declared and assigned, and no declaration stands as a branch or as the body of a loop.
-/
import Lox.Syntax.Basic

namespace Lox

/-- Names that a program can declare and assign. -/
def Ordinary (name : String) : Prop := name ≠ "this" ∧ name ≠ "super"

/-- The name that a statement declares in the scope it stands in. -/
def Stmt.declared? : Stmt → Option Name
  | .varDecl name _ | .classDecl name _ _ => some name
  | .funDecl declaration => some declaration.name
  | _ => none

/-! ## 1. Ids -/

mutual

/-- The ids in an expression. -/
def Expr.ids : Expr → List Id
  | .literal _ => []
  | .grouping inner => inner.ids
  | .unary _ _ operand => operand.ids
  | .binary _ _ left right => left.ids ++ right.ids
  | .logical _ _ left right => left.ids ++ right.ids
  | .variable v => [v.id]
  | .assign target value => value.ids ++ [target.id]
  | .call callee arguments _ => callee.ids ++ Expr.idsAll arguments
  | .get object _ => object.ids
  | .set object _ value => value.ids ++ object.ids
  | .this id _ => [id]
  | .super id _ _ => [id]
  | .list _ elements => Expr.idsAll elements

/-- The ids in a list of expressions. -/
def Expr.idsAll : List Expr → List Id
  | [] => []
  | e :: es => e.ids ++ Expr.idsAll es

end

/-- The ids in an expression, where there may be none. -/
def Expr.idsOptional : Option Expr → List Id
  | none => []
  | some e => e.ids

mutual

/-- The ids in a statement. -/
def Stmt.ids : Stmt → List Id
  | .print _ value => value.ids
  | .expression value => value.ids
  | .varDecl _ initializer => Expr.idsOptional initializer
  | .block body => Stmt.idsAll body
  | .ifElse condition thenBranch elseBranch =>
    condition.ids ++ thenBranch.ids ++ Stmt.idsOptional elseBranch
  | .whileLoop condition body => condition.ids ++ body.ids
  | .forEach _ _ iterable body => iterable.ids ++ body.ids
  | .funDecl declaration => FunDecl.ids declaration
  | .ret _ value => Expr.idsOptional value
  | .classDecl _ superclass methods =>
    (superclass.map Variable.id).toList ++ FunDecl.idsAll methods

/-- The ids in a statement, where there may be none. -/
def Stmt.idsOptional : Option Stmt → List Id
  | none => []
  | some s => s.ids

/-- The ids in a list of statements. -/
def Stmt.idsAll : List Stmt → List Id
  | [] => []
  | s :: rest => s.ids ++ Stmt.idsAll rest

/-- The ids in the body of a function. -/
def FunDecl.ids : FunDecl → List Id
  | ⟨_, _, body⟩ => Stmt.idsAll body

/-- The ids in the methods of a class. -/
def FunDecl.idsAll : List FunDecl → List Id
  | [] => []
  | method :: rest => method.ids ++ FunDecl.idsAll rest

end

/-! ## 2. Grammatical programs -/

mutual

/-- Only ordinary names are read as variables and assigned. -/
def Expr.Grammatical : Expr → Prop
  | .literal _ | .this .. | .super .. => True
  | .variable v => Ordinary v.name.text
  | .grouping inner => inner.Grammatical
  | .unary _ _ operand => operand.Grammatical
  | .binary _ _ left right => left.Grammatical ∧ right.Grammatical
  | .logical _ _ left right => left.Grammatical ∧ right.Grammatical
  | .assign target value => Ordinary target.name.text ∧ value.Grammatical
  | .call callee arguments _ => callee.Grammatical ∧ Expr.GrammaticalAll arguments
  | .get object _ => object.Grammatical
  | .set object _ value => object.Grammatical ∧ value.Grammatical
  | .list _ elements => Expr.GrammaticalAll elements

/-- A list of grammatical expressions. -/
def Expr.GrammaticalAll : List Expr → Prop
  | [] => True
  | e :: es => e.Grammatical ∧ Expr.GrammaticalAll es

end

/-- A grammatical expression, where there may be none. -/
def Expr.GrammaticalOptional : Option Expr → Prop
  | none => True
  | some e => e.Grammatical

mutual

/-- Only ordinary names are declared and assigned, and branches and loops have no declarations for
bodies. -/
def Stmt.Grammatical : Stmt → Prop
  | .print _ value => value.Grammatical
  | .expression value => value.Grammatical
  | .varDecl name initializer => Ordinary name.text ∧ Expr.GrammaticalOptional initializer
  | .block body => Stmt.GrammaticalAll body
  | .ifElse condition thenBranch elseBranch =>
    condition.Grammatical ∧ (thenBranch.declared? = none ∧ thenBranch.Grammatical) ∧
      Stmt.GrammaticalBranch elseBranch
  | .whileLoop condition body =>
    condition.Grammatical ∧ body.declared? = none ∧ body.Grammatical
  | .forEach _ name iterable body =>
    Ordinary name.text ∧ iterable.Grammatical ∧ body.declared? = none ∧ body.Grammatical
  | .funDecl declaration => Ordinary declaration.name.text ∧ FunDecl.Grammatical declaration
  | .ret _ value => Expr.GrammaticalOptional value
  | .classDecl name _ methods => Ordinary name.text ∧ FunDecl.GrammaticalAll methods

/-- A branch that is not a declaration, where there may be none. -/
def Stmt.GrammaticalBranch : Option Stmt → Prop
  | none => True
  | some s => s.declared? = none ∧ s.Grammatical

/-- A list of grammatical statements. -/
def Stmt.GrammaticalAll : List Stmt → Prop
  | [] => True
  | s :: rest => s.Grammatical ∧ Stmt.GrammaticalAll rest

/-- A function with ordinary parameters and a grammatical body. -/
def FunDecl.Grammatical : FunDecl → Prop
  | ⟨_, params, body⟩ => (∀ name ∈ params, Ordinary name.text) ∧ Stmt.GrammaticalAll body

/-- A list of such functions. -/
def FunDecl.GrammaticalAll : List FunDecl → Prop
  | [] => True
  | method :: rest => method.Grammatical ∧ FunDecl.GrammaticalAll rest

end

theorem Stmt.ordinary_of_declared? {s : Stmt} {name : Name} (h : s.Grammatical)
    (declared : s.declared? = some name) : Ordinary name.text := by
  cases s with
  | varDecl declaredName initializer =>
    cases declared
    simp only [Grammatical] at h
    exact h.1
  | funDecl declaration =>
    cases declared
    simp only [Grammatical] at h
    exact h.1
  | classDecl declaredName superclass methods =>
    cases declared
    simp only [Grammatical] at h
    exact h.1
  | _ => cases declared

end Lox
