/-
# No construct contains itself

The static scopes around a place belong to constructs that contain each other, from the inside out.
So the constructs are larger and larger pieces of code, and no two of the scopes belong to the same
one (`Occurrence.origin_inj`).
-/
import Lox.Proofs.Scoping.Occurrence

namespace Lox

open StaticScope

/-! ## 1. Scopes around code

The size of a construct is that of its tree, which goes up from the inside out. -/

/-- More than the size of the code in a scope.  The scope of `this` lies around that of the call. -/
noncomputable def ScopeOrigin.weight : ScopeOrigin → Nat
  | block body => sizeOf body + 1
  | iteration _ body => sizeOf body + 1
  | call declaration => sizeOf declaration + 1
  | receiver method => sizeOf method + 2
  | superclass methods => sizeOf methods + 1

/-- Scopes lie around code of some size, each of them in larger constructs than those before it. -/
def StaticScope.Nested (size : Nat) : List StaticScope → Prop
  | [] => True
  | scope :: outer => size < scope.origin.weight ∧ Nested scope.origin.weight outer

namespace StaticScope.Nested

variable {size smaller : Nat} {scopes : List StaticScope}

/-- What lies around a piece of code lies around every smaller one. -/
theorem mono (h : Nested size scopes) (le : smaller ≤ size) : Nested smaller scopes := by
  cases scopes with
  | nil => trivial
  | cons scope outer => exact ⟨Nat.lt_of_le_of_lt le h.1, h.2⟩

/-- Declarations change what scopes hold, and not what they belong to. -/
theorem bindName (h : Nested size scopes) (name : String) (complete : Bool) :
    Nested size (bindName name complete scopes) := by
  cases scopes with
  | nil => trivial
  | cons scope outer => exact h

theorem bindParams (h : Nested size scopes) (params : List Name) :
    Nested size (bindParams params scopes) := by
  unfold StaticScope.bindParams
  induction params generalizing scopes with
  | nil => exact h
  | cons name rest ih => exact ih (h.bindName _ _)

/-- So it is for the names that a statement declares. -/
theorem after (h : Nested size scopes) (s : Stmt) : Nested size (s.after scopes) := by
  unfold Stmt.after
  split
  · exact h.bindName _ _
  · exact h

/-- A construct that opens a scope lies in the scopes around it. -/
theorem push (h : Nested size scopes) {scope : StaticScope} (inside : smaller < scope.origin.weight)
    (le : scope.origin.weight ≤ size) : Nested smaller (scope :: scopes) :=
  ⟨inside, h.mono le⟩

/-- The scopes further out belong to larger constructs. -/
theorem lt_weight (h : Nested size scopes) {hops : Nat} {scope : StaticScope}
    (there : scopes[hops]? = some scope) : size < scope.origin.weight := by
  induction scopes generalizing size hops with
  | nil => cases there
  | cons first outer ih =>
    cases hops with
    | zero =>
      cases there
      exact h.1
    | succ hops => exact Nat.lt_trans h.1 (ih h.2 there)

/-- No two scopes belong to the same construct. -/
theorem origin_inj (h : Nested size scopes) {hops hops' : Nat} {scope scope' : StaticScope}
    (there : scopes[hops]? = some scope) (there' : scopes[hops']? = some scope')
    (same : scope.origin = scope'.origin) : hops = hops' := by
  induction scopes generalizing size hops hops' with
  | nil => cases there
  | cons first outer ih =>
    cases hops with
    | zero =>
      cases hops' with
      | zero => rfl
      | succ hops' =>
        cases there
        exact absurd (same ▸ h.2.lt_weight there') (Nat.lt_irrefl _)
    | succ hops =>
      cases hops' with
      | zero =>
        cases there'
        exact absurd (same ▸ h.2.lt_weight there) (Nat.lt_irrefl _)
      | succ hops' => exact congrArg (· + 1) (ih h.2 there there')

end StaticScope.Nested

/-! ## 2. Occurrences

By recursion on the program, with the scopes around. -/

namespace Occurrence

variable {scopes : List StaticScope} {o : Occurrence}

mutual

/-- Expressions open no scopes. -/
theorem scopes_of_mem_ofExpr : ∀ e : Expr, o ∈ ofExpr scopes e → o.scopes = scopes
  | .literal _, mem => by cases mem
  | .grouping e, mem | .unary _ _ e, mem | .get e _, mem => scopes_of_mem_ofExpr e mem
  | .binary _ _ left right, mem | .logical _ _ left right, mem =>
    (List.mem_append.1 mem).elim (scopes_of_mem_ofExpr left) (scopes_of_mem_ofExpr right)
  | .variable _, mem | .this .., mem | .super .., mem =>
    congrArg Occurrence.scopes (List.mem_singleton.1 mem)
  | .assign _ value, mem => (List.mem_append.1 mem).elim (scopes_of_mem_ofExpr value) fun mem => by
    rw [List.mem_singleton.1 mem]
  | .set object _ value, mem =>
    (List.mem_append.1 mem).elim (scopes_of_mem_ofExpr value) (scopes_of_mem_ofExpr object)
  | .call callee arguments _, mem =>
    (List.mem_append.1 mem).elim (scopes_of_mem_ofExpr callee) (scopes_of_mem_ofExprs arguments)
  | .list _ elements, mem => scopes_of_mem_ofExprs elements mem

theorem scopes_of_mem_ofExprs : ∀ es : List Expr, o ∈ ofExprs scopes es → o.scopes = scopes
  | [], mem => by cases mem
  | e :: es, mem =>
    (List.mem_append.1 mem).elim (scopes_of_mem_ofExpr e) (scopes_of_mem_ofExprs es)

end

/-- The scopes around an occurrence lie in each other. -/
def Nested (o : Occurrence) : Prop := ∃ size, StaticScope.Nested size o.scopes

/-- An occurrence with these scopes. -/
theorem nested_of_scopes_eq {size : Nat} (h : StaticScope.Nested size scopes)
    (same : o.scopes = scopes) : o.Nested :=
  ⟨size, same ▸ h⟩

theorem nested_ofOptional {size : Nat} (h : StaticScope.Nested size scopes) {e : Option Expr}
    (mem : o ∈ ofOptional scopes e) : o.Nested := by
  cases e with
  | none => cases mem
  | some e => exact nested_of_scopes_eq h (scopes_of_mem_ofExpr _ mem)

/-- Parameters stand in the scope of their function. -/
theorem nested_ofParams {size : Nat} (h : StaticScope.Nested size scopes) {params : List Name}
    (mem : o ∈ ofParams scopes params) : o.Nested := by
  induction params generalizing scopes with
  | nil => cases mem
  | cons name rest ih =>
    rcases List.mem_cons.1 mem with rfl | mem
    · exact ⟨size, h⟩
    · exact ih (h.bindName _ _) mem

mutual

/-- A statement is larger than its parts, and a scope that it opens belongs to it. -/
theorem nested_ofStmt {scopes : List StaticScope} : ∀ s : Stmt,
    StaticScope.Nested (sizeOf s) scopes → o ∈ ofStmt scopes s → o.Nested
  | .print .., h, mem | .expression _, h, mem =>
    nested_of_scopes_eq h (scopes_of_mem_ofExpr _ mem)
  | .ret .., h, mem => nested_ofOptional h mem
  | .varDecl .., h, mem => by
    rcases List.mem_cons.1 mem with rfl | mem
    · exact ⟨_, h⟩
    · exact nested_ofOptional (h.bindName _ _) mem
  | .block body, h, mem => by
    simp only [Stmt.block.sizeOf_spec] at h
    exact nested_ofStmts body (h.push (Nat.lt_succ_self _)
      (show sizeOf body + 1 ≤ _ by omega)) mem
  | .ifElse condition thenBranch elseBranch, h, mem => by
    simp only [Stmt.ifElse.sizeOf_spec] at h
    rcases List.mem_append.1 mem with mem | mem
    · rcases List.mem_append.1 mem with mem | mem
      · exact nested_of_scopes_eq h (scopes_of_mem_ofExpr _ mem)
      · exact nested_ofStmt thenBranch (h.mono (by omega)) mem
    · exact nested_ofOptionalStmt elseBranch (h.mono (by omega)) mem
  | .whileLoop condition body, h, mem => by
    simp only [Stmt.whileLoop.sizeOf_spec] at h
    rcases List.mem_append.1 mem with mem | mem
    · exact nested_of_scopes_eq h (scopes_of_mem_ofExpr _ mem)
    · exact nested_ofStmt body (h.mono (by omega)) mem
  | .forEach line name iterable body, h, mem => by
    simp only [Stmt.forEach.sizeOf_spec] at h
    have turn : StaticScope.Nested (sizeOf body) (fresh (.iteration name body) :: scopes) :=
      h.push (Nat.lt_succ_self _) (show sizeOf body + 1 ≤ _ by omega)
    rcases List.mem_append.1 mem with mem | mem
    · exact nested_of_scopes_eq h (scopes_of_mem_ofExpr _ mem)
    · rcases List.mem_cons.1 mem with rfl | mem
      · exact ⟨_, turn⟩
      · exact nested_ofStmt body (turn.bindName _ _) mem
  | .funDecl declaration, h, mem => by
    simp only [Stmt.funDecl.sizeOf_spec] at h
    rcases List.mem_cons.1 mem with rfl | mem
    · exact ⟨_, h⟩
    · exact nested_ofFunction declaration ((h.bindName _ _).mono (by omega)) mem
  | .classDecl name superclass methods, h, mem => by
    simp only [Stmt.classDecl.sizeOf_spec] at h
    rcases List.mem_append.1 mem with mem | mem
    · rcases List.mem_cons.1 mem with rfl | mem
      · exact ⟨_, h⟩
      · cases superclass with
        | none => cases mem
        | some parent =>
          rw [List.mem_singleton.1 mem]
          exact ⟨_, h.bindName name.text false⟩
    · have around := h.bindName name.text true
      cases superclass with
      | none => exact nested_ofMethods methods (around.mono (by omega)) mem
      | some parent =>
        exact nested_ofMethods methods (around.push (Nat.lt_succ_self _)
          (show sizeOf methods + 1 ≤ _ by omega)) mem

theorem nested_ofOptionalStmt {scopes : List StaticScope} : ∀ s : Option Stmt,
    StaticScope.Nested (sizeOf s) scopes → o ∈ ofOptionalStmt scopes s → o.Nested
  | none, _, mem => by cases mem
  | some s, h, mem => by
    simp only [Option.some.sizeOf_spec] at h
    exact nested_ofStmt s (h.mono (by omega)) mem

theorem nested_ofStmts {scopes : List StaticScope} : ∀ body : List Stmt,
    StaticScope.Nested (sizeOf body) scopes → o ∈ ofStmts scopes body → o.Nested
  | [], _, mem => by cases mem
  | s :: rest, h, mem => by
    simp only [List.cons.sizeOf_spec] at h
    rcases List.mem_append.1 mem with mem | mem
    · exact nested_ofStmt s (h.mono (by omega)) mem
    · exact nested_ofStmts rest ((h.after s).mono (by omega)) mem

/-- So it is for functions. -/
theorem nested_ofFunction {scopes : List StaticScope} : ∀ declaration : FunDecl,
    StaticScope.Nested (sizeOf declaration + 1) scopes → o ∈ ofFunction scopes declaration →
      o.Nested
  | ⟨name, params, body⟩, h, mem => by
    have inside : sizeOf body < sizeOf (FunDecl.mk name params body) + 1 := by
      simp only [FunDecl.mk.sizeOf_spec]
      omega
    have opened : StaticScope.Nested (sizeOf body)
        (fresh (.call ⟨name, params, body⟩) :: scopes) := h.push inside (Nat.le_refl _)
    rcases List.mem_append.1 mem with mem | mem
    · exact nested_ofParams opened mem
    · exact nested_ofStmts body (opened.bindParams _) mem

theorem nested_ofMethods {scopes : List StaticScope} : ∀ methods : List FunDecl,
    StaticScope.Nested (sizeOf methods) scopes → o ∈ ofMethods scopes methods → o.Nested
  | [], _, mem => by cases mem
  | method :: rest, h, mem => by
    simp only [List.cons.sizeOf_spec] at h
    rcases List.mem_append.1 mem with mem | mem
    · have positive : 0 < sizeOf rest := by
        cases rest <;> simp only [List.nil.sizeOf_spec, List.cons.sizeOf_spec] <;> omega
      exact nested_ofFunction method (h.push (Nat.lt_succ_self _)
        (show sizeOf method + 2 ≤ _ by omega)) mem
    · exact nested_ofMethods rest (h.mono (by omega)) mem

end

/-- **No two scopes around an occurrence belong to the same construct.** -/
theorem origin_inj {program : List Stmt} (mem : o ∈ ofProgram program) {hops hops' : Nat}
    {scope scope' : StaticScope} (there : o.scopes[hops]? = some scope)
    (there' : o.scopes[hops']? = some scope') (same : scope.origin = scope'.origin) :
    hops = hops' := by
  have outermost : StaticScope.Nested (sizeOf program) [] := trivial
  obtain ⟨size, nested⟩ := nested_ofStmts program outermost mem
  exact nested.origin_inj there there' same

end Occurrence

end Lox
