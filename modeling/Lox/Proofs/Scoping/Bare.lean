/-
# Blocks without a scope of their own

A block that declares nothing needs no scope.  A `Bareness` says which such blocks are bare, that
is, belong to the scope around them; in `Bareness.turns` these are the turns of the `for` loops with
an increment, of which the text shows no braces.  A block of the text that looks like a turn counts
as one; nothing is declared in it either.

`Bareness.ofProgram` lists the occurrences of names in a program with the static scopes that lie
around them if bare blocks open none, and `Bareness.resolution` files these.

* `Bareness.same_ofProgram`: an occurrence has the same static scopes around it as in
  `Occurrence.ofProgram`, but for those of bare blocks, which declare nothing.
* `Bareness.Same.binding`: so a name is found in the same static scope, and the resolver files as
  many more hops for it as there are bare blocks on the way.
* `ForLoop.ofStmt_stmt`: the condition, the body and the increment of a `for` loop stand in one
  scope with the variable of the loop, and with nothing else.
-/
import Mathlib
import Lox.Proofs.Scoping.Resolve
import Lox.Syntax.Parse

namespace Lox

open StaticScope
open Occurrence (declaring reading ofExpr ofExprs ofOptional ofParams methodScopes)

/-! ## 1. Bare blocks

The occurrences are listed as in `Occurrence`, with one difference: the statements of a bare block
stand where the block does. -/

/-- Which blocks are bare: they have no scope of their own.  Nothing is declared in them. -/
structure Bareness where
  bare : List Stmt → Bool
  declares_nothing : ∀ {body : List Stmt}, bare body = true → ∀ s ∈ body, s.declared? = none

/-- A block that can be the turn of a `for` loop: the body, and then the increment. -/
def isTurn : List Stmt → Bool
  | [body, .expression _] => body.declared?.isNone
  | _ => false

/-- The turns of `for` loops have no scope of their own. -/
def Bareness.turns : Bareness where
  bare := isTurn
  declares_nothing := by
    intro body turn s mem
    unfold isTurn at turn
    split at turn
    · rcases List.mem_pair.1 mem with rfl | rfl
      · exact Option.isNone_iff_eq_none.1 turn
      · rfl
    · cases turn

namespace Bareness

variable (b : Bareness)

/-- Whether a scope is that of a bare block. -/
def isBare : ScopeOrigin → Bool
  | .block body => b.bare body
  | _ => false

/-- Which scopes of a stack are those of bare blocks. -/
def marks (scopes : List StaticScope) : List Bool := scopes.map (b.isBare ·.origin)

mutual

/-- The occurrences in a statement, if bare blocks open no scope. -/
def ofStmt (scopes : List StaticScope) : Stmt → List Occurrence
  | .print _ value => ofExpr scopes value
  | .expression value => ofExpr scopes value
  | .varDecl name initializer =>
    declaring scopes name :: ofOptional (bindName name.text false scopes) initializer
  | .block body =>
    if b.bare body then ofStmts scopes body else ofStmts (fresh (.block body) :: scopes) body
  | .ifElse condition thenBranch elseBranch =>
    ofExpr scopes condition ++ ofStmt scopes thenBranch ++ ofOptionalStmt scopes elseBranch
  | .whileLoop condition body => ofExpr scopes condition ++ ofStmt scopes body
  | .forEach _ name iterable body =>
    let turn := fresh (.iteration name body) :: scopes
    ofExpr scopes iterable ++ declaring turn name :: ofStmt (bindName name.text true turn) body
  | .funDecl declaration =>
    declaring scopes declaration.name ::
      ofFunction (bindName declaration.name.text true scopes) declaration
  | .ret _ value => ofOptional scopes value
  | .classDecl name superclass methods =>
    declaring scopes name ::
      (superclass.map (reading (bindName name.text false scopes))).toList ++
      ofMethods (methodScopes (bindName name.text true scopes) superclass methods) methods

/-- The occurrences in a statement, where there may be none. -/
def ofOptionalStmt (scopes : List StaticScope) : Option Stmt → List Occurrence
  | none => []
  | some s => ofStmt scopes s

/-- The occurrences in statements that stand one after the other. -/
def ofStmts (scopes : List StaticScope) : List Stmt → List Occurrence
  | [] => []
  | s :: rest => ofStmt scopes s ++ ofStmts (s.after scopes) rest

/-- The occurrences in a function. -/
def ofFunction (scopes : List StaticScope) : FunDecl → List Occurrence
  | ⟨name, params, body⟩ =>
    let opened := fresh (.call ⟨name, params, body⟩) :: scopes
    ofParams opened params ++ ofStmts (bindParams params opened) body

/-- The occurrences in the methods of a class. -/
def ofMethods (scopes : List StaticScope) : List FunDecl → List Occurrence
  | [] => []
  | method :: rest =>
    ofFunction (StaticScope.receiver method :: scopes) method ++ ofMethods scopes rest

end

/-- The occurrences in a program, if bare blocks open no scope. -/
def ofProgram (program : List Stmt) : List Occurrence := b.ofStmts [] program

/-- The resolution of a program, if bare blocks open no scope. -/
def resolution (program : List Stmt) : Resolution :=
  (b.ofProgram program).foldl Resolution.file .empty

/-! ## 2. Stacks without the scopes of bare blocks

Nothing is declared in a bare block, so a name is found in the same scope with fewer scopes in
between. -/

/-- A stack without the scopes of bare blocks, which are empty. -/
inductive Erases : List StaticScope → List StaticScope → Prop
  | nil : Erases [] []
  | keep {scope : StaticScope} {scopes scopes' : List StaticScope}
      (kept : b.isBare scope.origin = false) (rest : Erases scopes scopes') :
      Erases (scope :: scopes) (scope :: scopes')
  | drop {body : List Stmt} {scopes scopes' : List StaticScope} (bare : b.bare body = true)
      (rest : Erases scopes scopes') : Erases (fresh (.block body) :: scopes) scopes'

/-- The innermost scope is that of a bare block. -/
def InBare (scopes : List StaticScope) : Prop := (b.marks scopes).head? = some true

variable {b} {scopes scopes' : List StaticScope}

/-- Declarations do not change which scopes are bare. -/
@[simp] theorem marks_bindName (name : String) (complete : Bool) :
    b.marks (bindName name complete scopes) = b.marks scopes := by
  cases scopes <;> rfl

@[simp] theorem marks_after (s : Stmt) : b.marks (s.after scopes) = b.marks scopes := by
  unfold Stmt.after
  split
  · exact marks_bindName _ _
  · rfl

@[simp] theorem marks_bindParams (params : List Name) :
    b.marks (bindParams params scopes) = b.marks scopes := by
  unfold bindParams
  induction params generalizing scopes with
  | nil => rfl
  | cons name rest ih => exact ih.trans (marks_bindName _ _)

@[simp] theorem inBare_bindName (name : String) (complete : Bool) :
    b.InBare (bindName name complete scopes) ↔ b.InBare scopes := by
  rw [InBare, marks_bindName, InBare]

/-- A scope that is kept is not bare. -/
theorem not_inBare_cons {scope : StaticScope} (kept : b.isBare scope.origin = false) :
    ¬ b.InBare (scope :: scopes) := by
  simp [InBare, marks, kept]

/-- How many scopes are left of the innermost ones. -/
def inwards (marks : List Bool) (hops : Nat) : Nat := (marks.take hops).count false

namespace Erases

/-- A name is declared on both sides where the innermost scope is kept. -/
theorem bindName (h : b.Erases scopes scopes') (outside : ¬ b.InBare scopes) (name : String)
    (complete : Bool) :
    b.Erases (bindName name complete scopes) (bindName name complete scopes') := by
  cases h with
  | nil => exact .nil
  | keep kept rest => exact .keep kept rest
  | drop bare rest => exact absurd (congrArg some bare) outside

/-- So it is for a statement. -/
theorem after (h : b.Erases scopes scopes') {s : Stmt}
    (outside : s.declared? ≠ none → ¬ b.InBare scopes) :
    b.Erases (s.after scopes) (s.after scopes') := by
  unfold Stmt.after
  cases declared : s.declared? with
  | none => exact h
  | some name => exact h.bindName (outside (by simp [declared])) _ _

theorem bindParams (h : b.Erases scopes scopes') (outside : ¬ b.InBare scopes)
    (params : List Name) : b.Erases (bindParams params scopes) (bindParams params scopes') := by
  unfold StaticScope.bindParams
  induction params generalizing scopes scopes' with
  | nil => exact h
  | cons name rest ih =>
    exact ih (h.bindName outside _ _) (by rwa [inBare_bindName])

/-- A name is found in the same static scope, which is not that of a bare block. -/
theorem locate (h : b.Erases scopes scopes') {name : String} {hops : Nat} {complete : Bool}
    (found : locate name scopes = some (hops, complete)) :
    ∃ static, scopes[hops]? = some static ∧ static.names.get? name = some complete ∧
      (b.marks scopes)[hops]? = some false ∧
      StaticScope.locate name scopes' = some (inwards (b.marks scopes) hops, complete) ∧
      scopes'[inwards (b.marks scopes) hops]? = some static := by
  induction h generalizing hops with
  | nil => cases found
  | @keep scope scopes scopes' kept rest ih =>
    have first : b.marks (scope :: scopes) = false :: b.marks scopes :=
      congrArg (· :: b.marks scopes) kept
    rw [StaticScope.locate] at found
    cases here : scope.names.get? name with
    | some complete' =>
      rw [here] at found
      cases found
      exact ⟨scope, rfl, here, by rw [first]; rfl, by rw [StaticScope.locate, here]; rfl, rfl⟩
    | none =>
      rw [here] at found
      obtain ⟨⟨inner, complete'⟩, further, same⟩ := Option.map_eq_some_iff.1 found
      cases same
      obtain ⟨static, there, declares, unmarked, located, there'⟩ := ih further
      have step : inwards (b.marks (scope :: scopes)) (inner + 1) =
          inwards (b.marks scopes) inner + 1 := by
        rw [first]
        simp [inwards]
      rw [step]
      refine ⟨static, there, declares, by rw [first]; exact unmarked, ?_, there'⟩
      rw [StaticScope.locate, here, located]
      rfl
  | @drop body scopes scopes' bare rest ih =>
    have first : b.marks (fresh (.block body) :: scopes) = true :: b.marks scopes :=
      congrArg (· :: b.marks scopes) bare
    rw [locate_fresh] at found
    obtain ⟨⟨inner, complete'⟩, further, same⟩ := Option.map_eq_some_iff.1 found
    cases same
    obtain ⟨static, there, declares, unmarked, located, there'⟩ := ih further
    have step : inwards (b.marks (fresh (.block body) :: scopes)) (inner + 1) =
        inwards (b.marks scopes) inner := by
      rw [first]
      simp [inwards]
    rw [step]
    exact ⟨static, there, declares, by rw [first]; exact unmarked, located, there'⟩

/-- A name that is found nowhere is found nowhere without the bare scopes. -/
theorem locate_none (h : b.Erases scopes scopes') {name : String}
    (missing : StaticScope.locate name scopes = none) :
    StaticScope.locate name scopes' = none := by
  induction h with
  | nil => rfl
  | @keep scope scopes scopes' kept rest ih =>
    rw [StaticScope.locate] at missing ⊢
    cases here : scope.names.get? name with
    | some complete =>
      rw [here] at missing
      cases missing
    | none =>
      rw [here] at missing
      rw [ih (Option.map_eq_none_iff.1 missing)]
      rfl
  | drop bare rest ih =>
    rw [locate_fresh] at missing
    exact ih (Option.map_eq_none_iff.1 missing)

end Erases

/-! ## 3. Occurrences

Both lists go through the program in the same order, and are compared entry by entry. -/

variable (b) in
/-- An occurrence of a name, and the same one if bare blocks open no scope. -/
structure Same (o o' : Occurrence) : Prop where
  role : o.role = o'.role
  name : o.name = o'.name
  scopes : b.Erases o.scopes o'.scopes
  outside : o.role = .declares → ¬ b.InBare o.scopes

/-- A declaration stands in a scope that is kept. -/
theorem same_declaring (erases : b.Erases scopes scopes') (outside : ¬ b.InBare scopes)
    (name : Name) : b.Same (declaring scopes name) (declaring scopes' name) :=
  ⟨rfl, rfl, erases, fun _ => outside⟩

/-- Something is done with a name that is not declared here. -/
theorem Same.using (erases : b.Erases scopes scopes') {role : Role} (uses : role ≠ .declares)
    (name : String) : b.Same ⟨role, name, scopes⟩ ⟨role, name, scopes'⟩ :=
  ⟨rfl, rfl, erases, fun declares => absurd declares uses⟩

mutual

/-- Expressions open no scopes, so their occurrences stand where they do. -/
theorem same_ofExpr (erases : b.Erases scopes scopes') : ∀ e : Expr,
    List.Forall₂ b.Same (ofExpr scopes e) (ofExpr scopes' e)
  | .literal _ => .nil
  | .grouping inner => same_ofExpr erases inner
  | .unary _ _ operand => same_ofExpr erases operand
  | .binary _ _ left right => List.rel_append (same_ofExpr erases left) (same_ofExpr erases right)
  | .logical _ _ left right => List.rel_append (same_ofExpr erases left) (same_ofExpr erases right)
  | .variable _ => .cons (.using erases Role.noConfusion _) .nil
  | .assign _ value =>
    List.rel_append (same_ofExpr erases value) (.cons (.using erases Role.noConfusion _) .nil)
  | .call callee arguments _ =>
    List.rel_append (same_ofExpr erases callee) (same_ofExprs erases arguments)
  | .get object _ => same_ofExpr erases object
  | .set object _ value => List.rel_append (same_ofExpr erases value) (same_ofExpr erases object)
  | .this _ _ => .cons (.using erases Role.noConfusion _) .nil
  | .super _ _ _ => .cons (.using erases Role.noConfusion _) .nil
  | .list _ elements => same_ofExprs erases elements

theorem same_ofExprs (erases : b.Erases scopes scopes') : ∀ es : List Expr,
    List.Forall₂ b.Same (ofExprs scopes es) (ofExprs scopes' es)
  | [] => .nil
  | e :: es => List.rel_append (same_ofExpr erases e) (same_ofExprs erases es)

end

theorem same_ofOptional (erases : b.Erases scopes scopes') : ∀ e : Option Expr,
    List.Forall₂ b.Same (ofOptional scopes e) (ofOptional scopes' e)
  | none => .nil
  | some e => same_ofExpr erases e

theorem same_ofParams (erases : b.Erases scopes scopes') (outside : ¬ b.InBare scopes)
    (params : List Name) :
    List.Forall₂ b.Same (ofParams scopes params) (ofParams scopes' params) := by
  induction params generalizing scopes scopes' with
  | nil => exact .nil
  | cons name rest ih =>
    exact .cons (same_declaring erases outside name)
      (ih (erases.bindName outside _ _) (by rwa [inBare_bindName]))

mutual

/-- In a bare block there are only statements that declare nothing. -/
theorem same_ofStmt {scopes scopes' : List StaticScope} (erases : b.Erases scopes scopes') :
    ∀ s : Stmt, s.Grammatical → (s.declared? ≠ none → ¬ b.InBare scopes) →
    List.Forall₂ b.Same (Occurrence.ofStmt scopes s) (b.ofStmt scopes' s)
  | .print _ value, _, _ => by
    rw [Occurrence.ofStmt, ofStmt]
    exact same_ofExpr erases value
  | .expression value, _, _ => by
    rw [Occurrence.ofStmt, ofStmt]
    exact same_ofExpr erases value
  | .varDecl name initializer, _, outside => by
    have outside := outside (Option.some_ne_none _)
    rw [Occurrence.ofStmt, ofStmt]
    exact .cons (same_declaring erases outside name)
      (same_ofOptional (erases.bindName outside _ _) initializer)
  | .block body, good, _ => by
    simp only [Stmt.Grammatical] at good
    rw [Occurrence.ofStmt, ofStmt]
    cases bare : b.bare body with
    | true =>
      exact same_ofStmts (.drop bare erases) body good fun s mem declares =>
        absurd (b.declares_nothing bare s mem) declares
    | false =>
      have kept : b.isBare (fresh (.block body)).origin = false := bare
      exact same_ofStmts (.keep kept erases) body good fun _ _ _ => not_inBare_cons kept
  | .ifElse condition thenBranch elseBranch, good, _ => by
    simp only [Stmt.Grammatical] at good
    obtain ⟨-, ⟨plain, branch⟩, otherwise⟩ := good
    rw [Occurrence.ofStmt, ofStmt]
    exact List.rel_append (List.rel_append (same_ofExpr erases condition)
      (same_ofStmt erases thenBranch branch fun declares => absurd plain declares))
      (same_ofOptionalStmt erases elseBranch otherwise)
  | .whileLoop condition body, good, _ => by
    simp only [Stmt.Grammatical] at good
    obtain ⟨-, plain, good⟩ := good
    rw [Occurrence.ofStmt, ofStmt]
    exact List.rel_append (same_ofExpr erases condition)
      (same_ofStmt erases body good fun declares => absurd plain declares)
  | .forEach _ name iterable body, good, _ => by
    simp only [Stmt.Grammatical] at good
    obtain ⟨-, -, plain, good⟩ := good
    have opened : b.Erases (fresh (.iteration name body) :: scopes)
        (fresh (.iteration name body) :: scopes') := .keep rfl erases
    have outside : ¬ b.InBare (fresh (.iteration name body) :: scopes) := not_inBare_cons rfl
    rw [Occurrence.ofStmt, ofStmt]
    exact List.rel_append (same_ofExpr erases iterable) (.cons (same_declaring opened outside name)
      (same_ofStmt (opened.bindName outside _ _) body good fun declares => absurd plain declares))
  | .funDecl declaration, good, outside => by
    simp only [Stmt.Grammatical] at good
    have outside := outside (Option.some_ne_none _)
    rw [Occurrence.ofStmt, ofStmt]
    exact .cons (same_declaring erases outside _)
      (same_ofFunction (erases.bindName outside _ _) declaration good.2)
  | .ret _ value, _, _ => by
    rw [Occurrence.ofStmt, ofStmt]
    exact same_ofOptional erases value
  | .classDecl name superclass methods, good, outside => by
    simp only [Stmt.Grammatical] at good
    have inside := outside (Option.some_ne_none _)
    have named := erases.bindName inside name.text true
    rw [Occurrence.ofStmt, ofStmt, List.cons_append, List.cons_append]
    refine .cons (same_declaring erases inside name) (List.rel_append ?_ ?_)
    · cases superclass with
      | none => exact .nil
      | some parent =>
        exact .cons (.using (erases.bindName inside _ _) Role.noConfusion _) .nil
    · cases superclass with
      | none => exact same_ofMethods named methods good.2
      | some parent => exact same_ofMethods (.keep rfl named) methods good.2

theorem same_ofOptionalStmt {scopes scopes' : List StaticScope} (erases : b.Erases scopes scopes') :
    ∀ s : Option Stmt, Stmt.GrammaticalBranch s →
    List.Forall₂ b.Same (Occurrence.ofOptionalStmt scopes s) (b.ofOptionalStmt scopes' s)
  | none, _ => .nil
  | some s, good => by
    simp only [Stmt.GrammaticalBranch] at good
    exact same_ofStmt erases s good.2 fun declares => absurd good.1 declares

/-- Statements of which those that declare something stand in a scope that is kept. -/
theorem same_ofStmts {scopes scopes' : List StaticScope} (erases : b.Erases scopes scopes') :
    ∀ body : List Stmt, Stmt.GrammaticalAll body →
    (∀ s ∈ body, s.declared? ≠ none → ¬ b.InBare scopes) →
    List.Forall₂ b.Same (Occurrence.ofStmts scopes body) (b.ofStmts scopes' body)
  | [], _, _ => .nil
  | s :: rest, good, outside => by
    simp only [Stmt.GrammaticalAll] at good
    have first := outside s List.mem_cons_self
    rw [Occurrence.ofStmts, ofStmts]
    exact List.rel_append (same_ofStmt erases s good.1 first)
      (same_ofStmts (erases.after first) rest good.2 fun s' mem declares => by
        rw [InBare, marks_after]
        exact outside s' (List.mem_cons_of_mem _ mem) declares)

/-- A function has a scope of its own, which is kept. -/
theorem same_ofFunction {scopes scopes' : List StaticScope} (erases : b.Erases scopes scopes') :
    ∀ declaration : FunDecl, declaration.Grammatical →
    List.Forall₂ b.Same (Occurrence.ofFunction scopes declaration)
      (b.ofFunction scopes' declaration)
  | ⟨name, params, body⟩, good => by
    simp only [FunDecl.Grammatical] at good
    have opened : b.Erases (fresh (.call ⟨name, params, body⟩) :: scopes)
        (fresh (.call ⟨name, params, body⟩) :: scopes') := .keep rfl erases
    have outside : ¬ b.InBare (fresh (.call ⟨name, params, body⟩) :: scopes) := not_inBare_cons rfl
    rw [Occurrence.ofFunction, ofFunction]
    exact List.rel_append (same_ofParams opened outside params)
      (same_ofStmts (opened.bindParams outside params) body good.2 fun _ _ _ => by
        rwa [InBare, marks_bindParams])

theorem same_ofMethods {scopes scopes' : List StaticScope} (erases : b.Erases scopes scopes') :
    ∀ methods : List FunDecl, FunDecl.GrammaticalAll methods →
    List.Forall₂ b.Same (Occurrence.ofMethods scopes methods) (b.ofMethods scopes' methods)
  | [], _ => .nil
  | method :: rest, good => by
    simp only [FunDecl.GrammaticalAll] at good
    rw [Occurrence.ofMethods, ofMethods]
    exact List.rel_append (same_ofFunction (.keep rfl erases) method good.1)
      (same_ofMethods erases rest good.2)

end

/-- **Bare blocks make no difference but for their scopes.** -/
theorem same_ofProgram (b : Bareness) {program : List Stmt} (good : Stmt.GrammaticalAll program) :
    List.Forall₂ b.Same (Occurrence.ofProgram program) (b.ofProgram program) :=
  same_ofStmts .nil program good fun _ _ _ inside => by cases inside

/-! ## 4. Declarations

Where an occurrence is bound is compared, and so is what is filed for it. -/

/-- Where a name is bound, and where it is bound if bare blocks open no scope: in the same static
scope, which is not that of a bare block, or both times among the globals. -/
inductive SameBinding (b : Bareness) (o o' : Occurrence) : Binding → Binding → Prop
  | local {hops : Nat} {static : StaticScope} (there : o.scopes[hops]? = some static)
      (declares : static.names.contains o.name = true) (kept : b.isBare static.origin = false)
      (there' : o'.scopes[inwards (b.marks o.scopes) hops]? = some static) :
      SameBinding b o o' (.local hops) (.local (inwards (b.marks o.scopes) hops))
  | global : SameBinding b o o' .global .global

/-- **A name is declared in the same place**, whether bare blocks open scopes or not. -/
theorem Same.binding {o o' : Occurrence} (h : b.Same o o') :
    b.SameBinding o o' o.binding o'.binding := by
  unfold Occurrence.binding
  rw [← h.name]
  cases found : locate o.name o.scopes with
  | none =>
    rw [h.scopes.locate_none found]
    exact .global
  | some place =>
    obtain ⟨hops, complete⟩ := place
    obtain ⟨static, there, declares, unmarked, located, there'⟩ := h.scopes.locate found
    rw [located]
    refine .local there ?_ ?_ there'
    · rw [Bindings.contains, declares]
      rfl
    · rw [marks, List.getElem?_map, there] at unmarked
      exact Option.some.inj unmarked

/-- The ids in a program are where they are. -/
theorem idsOf_ofProgram (b : Bareness) {program : List Stmt} (good : Stmt.GrammaticalAll program) :
    Resolution.idsOf (b.ofProgram program) = Stmt.idsAll program := by
  rw [← Resolution.idsOf_ofStmts []]
  have alike := b.same_ofProgram good
  unfold Occurrence.ofProgram at alike
  generalize Occurrence.ofStmts [] program = os at alike ⊢
  generalize b.ofProgram program = os' at alike ⊢
  induction alike with
  | nil => rfl
  | cons first _ ih =>
    simp only [Resolution.idsOf, List.filterMap_cons, first.role] at ih ⊢
    rw [ih]

variable (b) in
/-- What resolving makes of an occurrence, with the scopes of bare blocks and without them. -/
structure Resolves (resolution direct : Resolution) (o o' : Occurrence) : Prop extends
    b.Same o o' where
  filed : o.Filed resolution
  filed' : o'.Filed direct
  admissible : o.Admissible

section Program

variable {program : List Stmt} (good : Stmt.GrammaticalAll program)
  (distinct : (Stmt.idsAll program).Nodup)

include good distinct

/-- What the resolver files for a program, and what it would file if bare blocks opened no scope. -/
theorem resolves (b : Bareness) {resolution : Resolution}
    (resolved : resolve program = .ok resolution) :
    List.Forall₂ (b.Resolves resolution (b.resolution program)) (Occurrence.ofProgram program)
      (b.ofProgram program) := by
  have known := (Resolution.of_resolve good distinct resolved).1
  rw [← b.idsOf_ofProgram good] at distinct
  have filed' : ∀ o' ∈ b.ofProgram program, o'.Filed (b.resolution program) :=
    fun o' mem id node =>
      Resolution.binding_foldl_file distinct mem node (Resolution.binding_empty id)
  have alike := b.same_ofProgram good
  rw [List.forall₂_iff_get] at alike ⊢
  refine ⟨alike.1, fun i lt lt' => ?_⟩
  obtain ⟨admissible, filed⟩ := known _ (List.get_mem _ ⟨i, lt⟩)
  exact ⟨alike.2 i lt lt', filed, filed' _ (List.get_mem _ ⟨i, lt'⟩), admissible⟩

omit distinct in
/-- Nothing is filed for other ids. -/
theorem resolution_of_notMem (b : Bareness) {id : Id} (foreign : id ∉ Stmt.idsAll program) :
    (b.resolution program).binding id = .global := by
  rw [← b.idsOf_ofProgram good] at foreign
  exact (Resolution.binding_foldl_file_of_notMem foreign _).trans (Resolution.binding_empty id)

end Program

/-! ## 5. The scopes of a `for` loop

A `for` loop is a `while` loop whose turns are blocks, and inside of a block if it has an
initializer. -/

end Bareness

/-- A `for` loop: its clauses, of which some may be absent, and its body.  Without a condition it
goes on for ever. -/
structure ForLoop where
  initializer : Option Stmt
  condition : Expr
  increment : Option Expr
  body : Stmt

namespace ForLoop

open Bareness

variable (loop : ForLoop)

/-- The statement that the loop stands for. -/
def stmt : Stmt := Parse.forLoop loop.initializer loop.condition loop.increment loop.body

/-- What is executed in each turn of that statement. -/
def turn : Stmt :=
  match loop.increment with
  | some step => .block [loop.body, .expression step]
  | none => loop.body

/-- What the scope of a loop with an initializer is made for. -/
def origin (first : Stmt) : ScopeOrigin := .block [first, .whileLoop loop.condition loop.turn]

/-- The scope of a loop with an initializer: it holds the variable of the loop, if the initializer
declares one, and nothing else. -/
def scope (first : Stmt) : StaticScope where
  origin := loop.origin first
  names :=
    match first.declared? with
    | some name => Bindings.empty.insert name.text true
    | none => .empty

/-- The occurrences in the condition, the body and the increment, which all stand in one scope. -/
def ofTurns (scopes : List StaticScope) : List Occurrence :=
  ofExpr scopes loop.condition ++
    (turns.ofStmt scopes loop.body ++ ofOptional scopes loop.increment)

/-- The occurrences in the loop as it is written: those in the initializer, in the scope of the
loop, and those in its turns, which stand in the same scope behind the initializer. -/
def occurrences (scopes : List StaticScope) : List Occurrence :=
  match loop.initializer with
  | none => loop.ofTurns scopes
  | some first =>
    turns.ofStmt (fresh (loop.origin first) :: scopes) first ++
      loop.ofTurns (loop.scope first :: scopes)

variable {loop} (scopes : List StaticScope)

/-- The scope of a loop holds what its initializer declares. -/
theorem after_initializer (first : Stmt) :
    first.after (fresh (loop.origin first) :: scopes) = loop.scope first :: scopes := by
  unfold Stmt.after scope
  cases first.declared? <;> rfl

/-- The variable of the loop is visible in its turns, and nothing else is in its scope. -/
theorem locate_scope (first : Stmt) (name : String) :
    locate name (loop.scope first :: scopes) =
      if first.declared?.map (·.text) = some name then some (0, true)
      else (locate name scopes).map fun (hops, complete) => (hops + 1, complete) := by
  rw [locate]
  unfold scope
  cases first.declared? with
  | none => rfl
  | some declared =>
    simp only [Bindings.get?_insert, Option.map_some, Option.some.injEq]
    by_cases same : declared.text = name
    · rw [if_pos same, if_pos same]
    · rw [if_neg same, if_neg same]
      rfl

variable (plain : loop.body.declared? = none)

include plain

/-- The turns of the loop stand in the scope of the loop, as its block is bare. -/
theorem ofStmt_whileLoop :
    turns.ofStmt scopes (.whileLoop loop.condition loop.turn) = loop.ofTurns scopes := by
  unfold turn ofTurns
  cases loop.increment with
  | none => simp [ofStmt, ofOptional]
  | some step =>
    have bare : turns.bare [loop.body, .expression step] = true :=
      Option.isNone_iff_eq_none.2 plain
    simp [ofStmt, ofStmts, ofOptional, bare, Stmt.after, plain]

/-- **A `for` loop is scoped as it is written**, if the turns of such loops have no scope of their
own. -/
theorem ofStmt_stmt : turns.ofStmt scopes loop.stmt = loop.occurrences scopes := by
  unfold occurrences
  cases begins : loop.initializer with
  | none =>
    have same : loop.stmt = .whileLoop loop.condition loop.turn := by
      rw [stmt, begins]
      rfl
    rw [same, ofStmt_whileLoop scopes plain]
  | some first =>
    have same : loop.stmt = .block [first, .whileLoop loop.condition loop.turn] := by
      rw [stmt, begins]
      rfl
    have kept : turns.bare [first, .whileLoop loop.condition loop.turn] = false := rfl
    rw [same, ofStmt, kept]
    simp only [Bool.false_eq_true, if_false, ofStmts, List.append_nil]
    rw [ofStmt_whileLoop _ plain]
    exact congrArg (_ ++ loop.ofTurns ·) (after_initializer scopes first)

end ForLoop

end Lox
