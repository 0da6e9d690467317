/-
# Where a program returns

A program without static errors has no `return` outside of its functions (`returnFree_of_resolve`),
and a statement without one does not end with a `return` (`FallsWithin.exec`).  Two programs that
are run one after the other are therefore one program (`run_append`).
-/
import Lox.Eval.Basic
import Lox.Proofs.Eval.Moment
import Lox.Proofs.Scoping.Resolve

namespace Lox

/-! ## 1. Statements without `return`

Bodies of functions and methods are left out, since a `return` there is theirs. -/

mutual

/-- No `return` stands in a statement, outside of the functions in it. -/
def Stmt.ReturnFree : Stmt → Prop
  | .ret _ _ => False
  | .block body => Stmt.ReturnFreeAll body
  | .ifElse _ thenBranch elseBranch =>
    thenBranch.ReturnFree ∧ Stmt.ReturnFreeBranch elseBranch
  | .whileLoop _ body => body.ReturnFree
  | .forEach _ _ _ body => body.ReturnFree
  | .print .. | .expression _ | .varDecl .. | .funDecl _ | .classDecl .. => True

/-- The same of a branch, where there may be none. -/
def Stmt.ReturnFreeBranch : Option Stmt → Prop
  | none => True
  | some s => s.ReturnFree

/-- The same of a list of statements. -/
def Stmt.ReturnFreeAll : List Stmt → Prop
  | [] => True
  | s :: rest => s.ReturnFree ∧ Stmt.ReturnFreeAll rest

end

/-! ## 2. Walks without errors

The walk knows whether it is in a function, and reports a `return` that is not. -/

namespace Resolve

/-- If a step leaves no errors there were none before, and something holds. -/
def Clean (x : Resolve Unit) (p : Prop) : Prop :=
  ∀ state : ResolveState, (x.run state).2.errors = [] → state.errors = [] ∧ p

namespace Clean

variable {x y : Resolve Unit} {p q : Prop}

theorem nothing : Clean (pure ()) True := fun _ h => ⟨h, trivial⟩

/-- What holds may be put in another form. -/
theorem imp (h : Clean x p) (hpq : p → q) : Clean x q :=
  fun state none => ⟨(h state none).1, hpq (h state none).2⟩

/-- If there are no errors at the end there were none in between, so what holds of both steps
does. -/
theorem andThen (h : Clean x p) (h' : Clean y q) : Clean (do x; y) (p ∧ q) := fun state none =>
  have later := h' _ none
  have earlier := h state later.1
  ⟨earlier.1, earlier.2, later.2⟩

/-- Only the first of two steps says something. -/
theorem before (h : Clean x p) (h' : Clean y q) : Clean (do x; y) p := (h.andThen h').imp And.left

/-- Only the second of two steps says something. -/
theorem after (h : Clean x p) (h' : Clean y q) : Clean (do x; y) q := (h.andThen h').imp And.right

/-- A change that leaves the errors alone. -/
theorem modify {f : ResolveState → ResolveState} (h : ∀ state, (f state).errors = state.errors) :
    Clean (modify f) True :=
  fun state none => ⟨(h state).symm.trans none, trivial⟩

theorem seeing {view : ResolveState → Resolve Unit} (h : ∀ state, Clean (view state) p) :
    Clean (do view (← get)) p :=
  fun state => h state state

/-- A step that reports an error does not leave none. -/
theorem report (place : Name) (cause : ResolutionCause) :
    Clean (Resolve.report place cause) False :=
  fun _ none => absurd none (List.append_ne_nil_of_right_ne_nil _ (List.cons_ne_nil _ _))

/-- An error that is reported in some case keeps this case out. -/
theorem reportIf {c : Prop} [Decidable c] (place : Name) (cause : ResolutionCause)
    (h : Clean x p) : Clean (if c then (do Resolve.report place cause; x) else x) (¬ c ∧ p) := by
  by_cases hc : c
  · rw [if_pos hc]
    exact ((report place cause).before h).imp False.elim
  · rw [if_neg hc]
    exact h.imp fun hp => ⟨hc, hp⟩

theorem pushScope : Clean Resolve.pushScope True := .modify fun _ => rfl

theorem popScope : Clean Resolve.popScope True := .modify fun _ => rfl

theorem bind (name : String) (ready : Bool) : Clean (Resolve.bind name ready) True :=
  .modify fun state => by cases state.scopes <;> rfl

/-- A declaration may report an error, and nothing follows if it does not. -/
theorem declare (name : Name) : Clean (Resolve.declare name) True := by
  refine .seeing fun state => .after (.bind _ _) ?_
  split
  · exact (Clean.report _ _).imp False.elim
  · exact .nothing

theorem file (id : Id) (name : String) : Clean (Resolve.file id name) True :=
  .modify fun state => by cases hops? name state.scopes <;> rfl

/-- So may a variable. -/
theorem readVariable (v : Variable) : Clean (Resolve.readVariable v) True :=
  .seeing fun _ => (Clean.reportIf _ _ (.file _ _)).imp fun _ => trivial

/-- Declaring a name and making it ready at once. -/
theorem introduce (name : Name) (h : Clean x p) :
    Clean (do Resolve.declare name; Resolve.define name; x) p :=
  .after (.declare name) (.after (.bind _ _) h)

theorem params (names : List Name) : Clean (Resolve.params names) True := by
  induction names with
  | nil => exact .nothing
  | cons name rest ih => exact .introduce name ih

end Clean

mutual

/-- Nothing is to be known of expressions: no `return` stands in one. -/
theorem clean_expr (context : ResolveContext) : ∀ e : Expr, Clean (expr context e) True
  | .literal _ => .nothing
  | .grouping inner => clean_expr context inner
  | .unary _ _ operand => clean_expr context operand
  | .binary _ _ left right => .after (clean_expr context left) (clean_expr context right)
  | .logical _ _ left right => .after (clean_expr context left) (clean_expr context right)
  | .variable v => .readVariable v
  | .assign _ value => .after (clean_expr context value) (.file _ _)
  | .call callee arguments _ => .after (clean_expr context callee) (clean_exprs context arguments)
  | .get object _ => clean_expr context object
  | .set object _ value => .after (clean_expr context value) (clean_expr context object)
  | .this id line => by
    unfold expr
    cases context.class with
    | none => exact (Clean.report _ _).imp False.elim
    | base | derived => exact .file _ _
  | .super id line _ => by
    unfold expr
    cases context.class with
    | none | base => exact (Clean.report _ _).imp False.elim
    | derived => exact .file _ _
  | .list _ elements => clean_exprs context elements

theorem clean_exprs (context : ResolveContext) : ∀ es : List Expr, Clean (exprs context es) True
  | [] => .nothing
  | e :: es => .after (clean_expr context e) (clean_exprs context es)

end

theorem clean_optionalExpr (context : ResolveContext) (e : Option Expr) :
    Clean (optionalExpr context e) True := by
  cases e with
  | none => exact .nothing
  | some e => exact clean_expr context e

theorem clean_superclass (context : ResolveContext) (name : Name) (parent : Option Variable) :
    Clean (superclass context name parent) True := by
  cases parent with
  | none => exact .nothing
  | some parent =>
    have scope := Clean.pushScope.after (.bind "super" true)
    exact (Clean.reportIf _ _ ((Clean.readVariable parent).after scope)).imp fun _ => trivial

mutual

/-- A walk without errors outside of functions finds no `return`. -/
theorem clean_stmt (context : ResolveContext) :
    ∀ s : Stmt, Clean (stmt context s) (context.function = .none → s.ReturnFree)
  | .print _ value => (clean_expr context value).imp fun _ _ => trivial
  | .expression value => (clean_expr context value).imp fun _ _ => trivial
  | .varDecl name initializer =>
    (Clean.declare name).after ((clean_optionalExpr context initializer).after (.bind _ _))
      |>.imp fun _ _ => trivial
  | .block body => .after .pushScope (.before (clean_stmts context body) .popScope)
  | .ifElse condition thenBranch elseBranch =>
    (clean_expr context condition).after
      ((clean_stmt context thenBranch).andThen (clean_optionalStmt context elseBranch))
      |>.imp fun branches top => ⟨branches.1 top, branches.2 top⟩
  | .whileLoop condition body => .after (clean_expr context condition) (clean_stmt context body)
  | .forEach _ name iterable body =>
    .after (clean_expr context iterable)
      (.after .pushScope (.introduce name (.before (clean_stmt context body) .popScope)))
  | .funDecl declaration =>
    (Clean.introduce _ (clean_function { context with function := .function } declaration)).imp
      fun _ _ => trivial
  | .ret line value =>
    have rest := (clean_optionalExpr context value).reportIf _ _
    (Clean.reportIf _ _ rest).imp fun kept top => absurd top kept.1
  | .classDecl name parent methods => by
    have close : Clean (if parent.isSome then popScope else pure ()) True := by
      split
      · exact .popScope
      · exact .nothing
    have body := (clean_methodDecls
      { context with «class» := if parent.isSome then .derived else .base } methods).after
        (Clean.popScope.after close)
    have inside := (clean_superclass context name parent).after
      (Clean.pushScope.after ((Clean.bind "this" true).after body))
    exact (Clean.introduce name inside).imp fun _ _ => trivial

theorem clean_optionalStmt (context : ResolveContext) :
    ∀ s : Option Stmt,
      Clean (optionalStmt context s) (context.function = .none → Stmt.ReturnFreeBranch s)
  | none => .imp .nothing fun _ _ => trivial
  | some s => clean_stmt context s

/-- If the walk is outside of functions and leaves no errors, then none of the statements has a
`return`. -/
theorem clean_stmts (context : ResolveContext) :
    ∀ body : List Stmt,
      Clean (stmts context body) (context.function = .none → Stmt.ReturnFreeAll body)
  | [] => .imp .nothing fun _ _ => trivial
  | s :: rest => ((clean_stmt context s).andThen (clean_stmts context rest)).imp
    fun all top => ⟨all.1 top, all.2 top⟩

/-- The body of a function is inside of one, so nothing is to be known of it. -/
theorem clean_function (context : ResolveContext) :
    ∀ declaration : FunDecl, Clean (function context declaration) True
  | ⟨_, names, body⟩ =>
    .after .pushScope (.after (.params names) (.after (clean_stmts context body) .popScope))

theorem clean_methodDecls (context : ResolveContext) :
    ∀ methods : List FunDecl, Clean (methodDecls context methods) True
  | [] => .nothing
  | method :: rest => .after (clean_function _ method) (clean_methodDecls context rest)

end

end Resolve

/-- **A program without static errors has no `return` outside of its functions.** -/
theorem returnFree_of_resolve {program : List Stmt} {resolution : Resolution}
    (h : resolve program = .ok resolution) : Stmt.ReturnFreeAll program :=
  (Resolve.clean_stmts ⟨.none, .none⟩ program _ (resolve_eq_ok.1 h).1).2 rfl

/-! ## 3. Runs that do not return

An evaluation of statements falls through or fails. -/

namespace Eval

/-- The evaluation never ends with a `return`. -/
def Falls (x : Eval Completion) : Prop := ∀ s c t, x s = .ok c t → c = .normal

namespace Falls

variable {α : Type} {x y : Eval Completion}

/-- An evaluation that completes normally does not return. -/
theorem normal : Falls (pure .normal) := by
  rintro s c t h
  cases h
  rfl

/-- Neither does one that fails. -/
theorem throw (interrupt : Interrupt) : Falls (MonadExcept.throw interrupt) := by
  rintro s c t h
  cases h

/-- How an evaluation ends is settled by its last part. -/
theorem bind {x : Eval α} {f : α → Eval Completion} (h : ∀ v, Falls (f v)) : Falls (x >>= f) := by
  intro s c t found
  obtain ⟨v, s', -, last⟩ := bind_eq_ok found
  exact h v s' c t last

theorem ite {p : Prop} [Decidable p] (h : Falls x) (h' : Falls y) :
    Falls (if p then x else y) := by
  split
  · exact h
  · exact h'

/-- To leave a scope changes nothing about the completion. -/
theorem within (scope : ScopeId) (h : Falls x) : Falls (Eval.within scope x) := by
  intro s c t found
  unfold Eval.within at found
  dsimp only at found
  cases hx : x { s with scope := scope } with
  | ok v s' =>
    rw [hx] at found
    cases found
    exact h _ _ _ hx
  | error interrupt s' =>
    rw [hx] at found
    cases found

/-- What follows a statement that does not return. -/
theorem andThen {f : Completion → Eval Completion} (h : Falls x) (hf : Falls (f .normal)) :
    Falls (x >>= f) := by
  intro s c t found
  obtain ⟨c', s', first, last⟩ := bind_eq_ok found
  cases h _ _ _ first
  exact hf s' c t last

end Falls

/-- With so much fuel, statements without `return` do not end with one. -/
structure FallsWithin (fuel : Nat) : Prop where
  exec : ∀ s : Stmt, s.ReturnFree → Falls (exec fuel s)
  execAll : ∀ body : List Stmt, Stmt.ReturnFreeAll body → Falls (execAll fuel body)
  whileLoop : ∀ (condition : Expr) (body : Stmt), body.ReturnFree →
    Falls (whileLoop fuel condition body)
  forEach : ∀ (cursor : Cursor) (line : Nat) (name : Name) (body : Stmt), body.ReturnFree →
    Falls (forEach fuel cursor line name body)

namespace FallsWithin

/-- Without fuel nothing completes. -/
theorem zero : FallsWithin 0 where
  exec s _ := by
    rw [Eval.exec]
    exact .throw _
  execAll body _ := by
    rw [Eval.execAll]
    exact .throw _
  whileLoop condition body _ := by
    rw [Eval.whileLoop]
    exact .throw _
  forEach cursor line name body _ := by
    rw [Eval.forEach]
    exact .throw _

variable {fuel : Nat} (ih : FallsWithin fuel)

include ih

/-- Only a `return` statement ends with a return by itself.  The others end with that of a part. -/
theorem exec_succ {s : Stmt} (h : s.ReturnFree) : Falls (Eval.exec (fuel + 1) s) := by
  cases s with
  | print line value =>
    rw [Eval.exec]
    exact .bind fun _ => .bind fun _ => .normal
  | expression value =>
    rw [Eval.exec]
    exact .bind fun _ => .normal
  | varDecl name initializer =>
    rw [Eval.exec]
    exact .bind fun _ => .bind fun _ => .normal
  | block body =>
    rw [Eval.exec]
    exact .bind fun _ => .within _ (ih.execAll body h)
  | ifElse condition thenBranch elseBranch =>
    cases elseBranch with
    | none =>
      rw [Eval.exec]
      exact .bind fun _ => .ite (ih.exec thenBranch h.1) .normal
    | some other =>
      rw [Eval.exec]
      exact .bind fun _ => .ite (ih.exec thenBranch h.1) (ih.exec other h.2)
  | whileLoop condition body =>
    rw [Eval.exec]
    exact ih.whileLoop condition body h
  | forEach line name iterable body =>
    rw [Eval.exec]
    refine .bind fun iterator => ?_
    cases iterator with
    | inst id => exact .bind fun _ => .bind fun cursor => ih.forEach cursor line name body h
    | _ => exact .throw _
  | funDecl declaration =>
    rw [Eval.exec]
    exact .bind fun _ => .bind fun _ => .bind fun _ => .normal
  | ret line value => cases h
  | classDecl name superclass methods =>
    cases superclass <;> simp only [Eval.exec] <;> exact .bind fun _ => .bind fun _ => .normal

/-- A list of statements ends with the first that does not complete normally. -/
theorem execAll_succ {body : List Stmt} (h : Stmt.ReturnFreeAll body) :
    Falls (Eval.execAll (fuel + 1) body) := by
  cases body with
  | nil =>
    simp only [Eval.execAll]
    exact .normal
  | cons s rest =>
    rw [Eval.execAll]
    exact .andThen (ih.exec s h.1) (ih.execAll rest h.2)

variable {body : Stmt} (h : body.ReturnFree)

include h

theorem whileLoop_succ (condition : Expr) :
    Falls (Eval.whileLoop (fuel + 1) condition body) := by
  rw [Eval.whileLoop]
  exact .bind fun _ => .ite (.andThen (ih.exec body h) (ih.whileLoop condition body h)) .normal

theorem forEach_succ (cursor : Cursor) (line : Nat) (name : Name) :
    Falls (Eval.forEach (fuel + 1) cursor line name body) := by
  rw [Eval.forEach]
  refine .bind fun _ => .ite (.bind fun scope => .bind fun _ => .bind fun _ => ?_) .normal
  exact .andThen (.within _ (ih.exec body h)) (.bind fun _ => ih.forEach cursor line name body h)

omit h in
theorem succ : FallsWithin (fuel + 1) where
  exec _ := ih.exec_succ
  execAll _ := ih.execAll_succ
  whileLoop condition _ h := ih.whileLoop_succ h condition
  forEach cursor line name _ h := ih.forEach_succ h cursor line name

end FallsWithin

/-- All of them together, by induction on the fuel. -/
theorem fallsWithin : ∀ fuel, FallsWithin fuel
  | 0 => .zero
  | fuel + 1 => (fallsWithin fuel).succ

/-- **Two programs are run one after the other**, if the first one does not return. -/
theorem run_append (fuel : Nat) {first : List Stmt} (h : Stmt.ReturnFreeAll first)
    (second : List Stmt) :
    run fuel (first ++ second) = (do run fuel first; run fuel second) := by
  induction first with
  | nil => rfl
  | cons s rest ih =>
    funext state
    rw [List.cons_append, run, run, ih h.2]
    cases hs : exec fuel s state with
    | error interrupt t => simp only [bind_of_error hs, bind_assoc]
    | ok c t =>
      cases (fallsWithin fuel).exec s h.1 _ _ _ hs
      simp only [bind_of_ok hs, bind_assoc]

end Eval

end Lox
