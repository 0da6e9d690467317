/-
# Programs that are alike run alike

`Simulates fuel` says of each function of the evaluator that with so much fuel it does alike on
what is alike.  With one unit of fuel more each of them does so too, since all it does is acts that
are alike and calls with less fuel (`Simulates.succ`); so all do, with any fuel (`simulates`).
-/
import Lox.Proofs.Eval.Likeness

namespace Lox.Eval

variable {m : Likeness}

/-- With so much fuel every function of the evaluator does alike on what is alike. -/
structure Simulates (m : Likeness) (fuel : Nat) : Prop where
  eval : ∀ {e e' : Expr}, e.Alike m e' → Alike m (Value.Alike m) (eval fuel e) (eval fuel e')
  evalAll : ∀ {es es' : List Expr}, Expr.AlikeAll m es es' →
    Alike m (List.Forall₂ (Value.Alike m)) (evalAll fuel es) (evalAll fuel es')
  evalOptional : ∀ {e e' : Option Expr}, Option.Rel (Expr.Alike m) e e' →
    Alike m (Value.Alike m) (evalOptional fuel e) (evalOptional fuel e')
  call : ∀ {v v' : Value} {values values' : List Value} {line line' : Nat}, v.Alike m v' →
    List.Forall₂ (Value.Alike m) values values' → m.lines line line' →
    Alike m (Value.Alike m) (call fuel v values line) (call fuel v' values' line')
  apply : ∀ {c c' : Callable} {values values' : List Value} {line line' : Nat}, c.Alike m c' →
    List.Forall₂ (Value.Alike m) values values' → m.lines line line' →
    Alike m (Value.Alike m) (apply fuel c values line) (apply fuel c' values' line')
  applyMethod : ∀ {b b' : BoundMethod} {values values' : List Value} {line line' : Nat},
    b.Alike m b' → List.Forall₂ (Value.Alike m) values values' → m.lines line line' →
    Alike m (Value.Alike m) (applyMethod fuel b values line) (applyMethod fuel b' values' line')
  applyClosure : ∀ {c c' : Closure} {values values' : List Value}, c.Alike m c' →
    List.Forall₂ (Value.Alike m) values values' →
    Alike m (Value.Alike m) (applyClosure fuel c values) (applyClosure fuel c' values')
  invoke : ∀ {v v' : Value} (name : String) {values values' : List Value} {line line' : Nat},
    v.Alike m v' → List.Forall₂ (Value.Alike m) values values' → m.lines line line' →
    Alike m (Value.Alike m) (invoke fuel v name values line) (invoke fuel v' name values' line')
  exec : ∀ {s s' : Stmt}, s.Alike m s' →
    Alike m (Completion.Alike m) (exec fuel s) (exec fuel s')
  execAll : ∀ {body body' : List Stmt}, Stmt.AlikeAll m body body' →
    Alike m (Completion.Alike m) (execAll fuel body) (execAll fuel body')
  whileLoop : ∀ {e e' : Expr} {s s' : Stmt}, e.Alike m e' → s.Alike m s' →
    Alike m (Completion.Alike m) (whileLoop fuel e s) (whileLoop fuel e' s')
  forEach : ∀ {c c' : Cursor} {line line' : Nat} {name name' : Name} {s s' : Stmt}, c.Alike m c' →
    m.lines line line' → name.Alike m name' → s.Alike m s' →
    Alike m (Completion.Alike m) (forEach fuel c line name s) (forEach fuel c' line' name' s')
  cursorHasItems : ∀ {c c' : Cursor} {line line' : Nat}, c.Alike m c' → m.lines line line' →
    Alike m (· = ·) (cursorHasItems fuel c line) (cursorHasItems fuel c' line')
  cursorCurrent : ∀ {c c' : Cursor} {line line' : Nat}, c.Alike m c' → m.lines line line' →
    Alike m (Value.Alike m) (cursorCurrent fuel c line) (cursorCurrent fuel c' line')
  cursorAdvance : ∀ {c c' : Cursor} {line line' : Nat}, c.Alike m c' → m.lines line line' →
    Alike m (· = ·) (cursorAdvance fuel c line) (cursorAdvance fuel c' line')

/-- Functions that have no fuel left. -/
theorem Alike.exhausted {α β : Type} {R : α → β → Prop} {x : Eval α} {y : Eval β}
    (left : x = outOfFuel) (right : y = outOfFuel) : Alike m R x y := by
  rw [left, right]
  exact .throw .outOfFuel

namespace Simulates

/-- Without fuel nothing is evaluated. -/
theorem zero : Simulates m 0 where
  eval _ := .exhausted (Eval.eval.eq_1 _) (Eval.eval.eq_1 _)
  evalAll _ := .exhausted (Eval.evalAll.eq_1 _) (Eval.evalAll.eq_1 _)
  evalOptional _ := .exhausted (Eval.evalOptional.eq_1 _) (Eval.evalOptional.eq_1 _)
  call _ _ _ := .exhausted (Eval.call.eq_1 _ _ _) (Eval.call.eq_1 _ _ _)
  apply _ _ _ := .exhausted (Eval.apply.eq_1 _ _ _) (Eval.apply.eq_1 _ _ _)
  applyMethod _ _ _ := .exhausted (Eval.applyMethod.eq_1 _ _ _) (Eval.applyMethod.eq_1 _ _ _)
  applyClosure _ _ := .exhausted (Eval.applyClosure.eq_1 _ _) (Eval.applyClosure.eq_1 _ _)
  invoke _ _ _ _ _ _ _ _ := .exhausted (Eval.invoke.eq_1 _ _ _ _) (Eval.invoke.eq_1 _ _ _ _)
  exec _ := .exhausted (Eval.exec.eq_1 _) (Eval.exec.eq_1 _)
  execAll _ := .exhausted (Eval.execAll.eq_1 _) (Eval.execAll.eq_1 _)
  whileLoop _ _ := .exhausted (Eval.whileLoop.eq_1 _ _) (Eval.whileLoop.eq_1 _ _)
  forEach _ _ _ _ := .exhausted (Eval.forEach.eq_1 _ _ _ _) (Eval.forEach.eq_1 _ _ _ _)
  cursorHasItems _ _ := .exhausted (Eval.cursorHasItems.eq_1 _ _) (Eval.cursorHasItems.eq_1 _ _)
  cursorCurrent _ _ := .exhausted (Eval.cursorCurrent.eq_1 _ _) (Eval.cursorCurrent.eq_1 _ _)
  cursorAdvance _ _ := .exhausted (Eval.cursorAdvance.eq_1 _ _) (Eval.cursorAdvance.eq_1 _ _)

variable {fuel : Nat} (ih : Simulates m fuel)

include ih

/-! ## 1. Expressions

Each function of the evaluator with one unit of fuel more, from all of them with what is left. -/

/-- One case for each kind of expression. -/
theorem eval_succ {e e' : Expr} (like : e.Alike m e') :
    Alike m (Value.Alike m) (Eval.eval (fuel + 1) e) (Eval.eval (fuel + 1) e') := by
  cases like <;> simp only [Eval.eval]
  case literal value => exact .pure (.literal value)
  case grouping inner => exact ih.eval inner
  case unary lines operand => exact .bind (ih.eval operand) fun _ _ value => .unary _ lines value
  case binary lines left right =>
    exact .bind (ih.eval left) fun _ _ value => .bind (ih.eval right) fun _ _ value' =>
      .binary _ lines value value'
  case logical op _ _ _ _ _ _ lines left right =>
    refine .bind (ih.eval left) fun v v' value => ?_
    rw [Alike.decides_eq op value]
    exact .ite Iff.rfl (.pure value) (ih.eval right)
  case «variable» occurrence =>
    rw [occurrence.name.text]
    exact .readVariable occurrence.id _ occurrence.name.line
  case assign target value =>
    exact .bind (ih.eval value) fun _ _ value => .bind (.writeVariable target value)
      fun _ _ _ => .pure value
  case call callee arguments lines =>
    exact .bind (ih.eval callee) fun _ _ value => .bind (ih.evalAll arguments)
      fun _ _ values => ih.call value values lines
  case get object property =>
    refine .bind (ih.eval object) fun v v' value => ?_
    cases value with
    | inst id =>
      dsimp only
      rw [property.text]
      exact .getProperty id _ property.line
    | _ => exact .fail _ property.line
  case set object property value =>
    refine .bind (ih.eval object) fun v v' target => ?_
    cases target with
    | inst id =>
      refine .bind (ih.eval value) fun w w' value => ?_
      rw [property.text]
      exact .bind (.setField id _ value) fun _ _ _ => .pure value
    | _ => exact .fail _ property.line
  case this ids lines => exact .readVariable ids _ lines
  case super ids lines method => exact .superMethod ids lines method
  case list lines elements => exact .bind (ih.evalAll elements) fun _ _ values => .newList values

/-- Expressions are evaluated one after the other. -/
theorem evalAll_succ {es es' : List Expr} (likes : Expr.AlikeAll m es es') :
    Alike m (List.Forall₂ (Value.Alike m)) (Eval.evalAll (fuel + 1) es)
      (Eval.evalAll (fuel + 1) es') := by
  cases likes with
  | nil =>
    simp only [Eval.evalAll]
    exact .pure .nil
  | cons first rest =>
    simp only [Eval.evalAll]
    exact .bind (ih.eval first) fun _ _ value => .bind (ih.evalAll rest) fun _ _ values =>
      .pure (.cons value values)

theorem evalOptional_succ {e e' : Option Expr} (like : Option.Rel (Expr.Alike m) e e') :
    Alike m (Value.Alike m) (Eval.evalOptional (fuel + 1) e) (Eval.evalOptional (fuel + 1) e') := by
  cases like with
  | none =>
    simp only [Eval.evalOptional]
    exact .pure .nil
  | some like =>
    simp only [Eval.evalOptional]
    exact ih.eval like

/-! ## 2. Calls

Callables that are alike run code that is alike. -/

variable {values values' : List Value} {line line' : Nat}

/-- The callee is a callable on both sides, or on neither. -/
theorem call_succ {v v' : Value} (callee : v.Alike m v')
    (likes : List.Forall₂ (Value.Alike m) values values') (lines : m.lines line line') :
    Alike m (Value.Alike m) (Eval.call (fuel + 1) v values line)
      (Eval.call (fuel + 1) v' values' line') := by
  cases callee with
  | callable callable =>
    simp only [Eval.call]
    rw [callable.arity_eq, likes.length_eq]
    exact .ite Iff.rfl (.nested lines (ih.apply callable likes lines)) (.fail _ lines)
  | _ =>
    simp only [Eval.call]
    exact .fail _ lines

/-- A class makes an instance, a closure runs its body, and all else is built in. -/
theorem apply_succ {c c' : Callable} (callable : c.Alike m c')
    (likes : List.Forall₂ (Value.Alike m) values values') (lines : m.lines line line') :
    Alike m (Value.Alike m) (Eval.apply (fuel + 1) c values line)
      (Eval.apply (fuel + 1) c' values' line') := by
  cases callable <;> simp only [Eval.apply]
  case builtin function => exact .callFunction function likes lines
  case closure closure => exact ih.applyClosure closure likes
  case bound method => exact ih.applyMethod method likes lines
  case «class» classes =>
    refine .bind (.newInstance classes none) ?_
    rintro id _ rfl
    rcases rel_cases (classes.findMethod? initializerName) with
      ⟨left, right⟩ | ⟨initializer, initializer', left, right, methods⟩ <;> rw [left, right]
    · exact .pure (.inst id)
    · exact .bind (.bindMethod id methods) fun _ _ bound =>
        .bind (ih.applyMethod bound likes lines) fun _ _ _ => .pure (.inst id)

theorem applyMethod_succ {b b' : BoundMethod} (bound : b.Alike m b')
    (likes : List.Forall₂ (Value.Alike m) values values') (lines : m.lines line line') :
    Alike m (Value.Alike m) (Eval.applyMethod (fuel + 1) b values line)
      (Eval.applyMethod (fuel + 1) b' values' line') := by
  obtain ⟨receiver, method⟩ := b
  obtain ⟨receiver', method'⟩ := b'
  obtain ⟨rfl, methods⟩ := bound
  cases methods <;> simp only [Eval.applyMethod]
  case builtin method => exact .callMethod method _ likes lines
  case declared closure => exact ih.applyClosure closure likes

/-- Bodies that are alike are run in scopes that are the same. -/
theorem applyClosure_succ {c c' : Closure} (closure : c.Alike m c')
    (likes : List.Forall₂ (Value.Alike m) values values') :
    Alike m (Value.Alike m) (Eval.applyClosure (fuel + 1) c values)
      (Eval.applyClosure (fuel + 1) c' values') := by
  simp only [Eval.applyClosure]
  rw [closure.scope]
  refine .bind (.newScope _) ?_
  rintro scope _ rfl
  exact .bind (.defineAll scope closure.declaration.params likes) fun _ _ _ =>
    .bind (.within scope (ih.execAll closure.declaration.body)) fun _ _ completion =>
      .callResult closure completion

theorem invoke_succ {v v' : Value} (name : String) (receiver : v.Alike m v')
    (likes : List.Forall₂ (Value.Alike m) values values') (lines : m.lines line line') :
    Alike m (Value.Alike m) (Eval.invoke (fuel + 1) v name values line)
      (Eval.invoke (fuel + 1) v' name values' line') := by
  cases receiver <;> simp only [Eval.invoke]
  case inst id =>
    exact .bind (.getProperty id name lines) fun _ _ value => ih.call value likes lines
  all_goals exact .fail _ lines

/-! ## 3. Statements

As for expressions. -/

/-- The superclass is evaluated first, and the class is then declared. -/
theorem classDecl_succ {name name' : Name} (names : name.Alike m name')
    {superclass superclass' : Option Variable}
    (superclasses : Option.Rel (Variable.Alike m) superclass superclass')
    {methods methods' : List FunDecl} (declared : FunDecl.AlikeAll m methods methods') :
    Alike m (Completion.Alike m) (Eval.exec (fuel + 1) (.classDecl name superclass methods))
      (Eval.exec (fuel + 1) (.classDecl name' superclass' methods')) := by
  cases superclasses with
  | none =>
    simp only [Eval.exec]
    exact .bind (.pure .none) fun _ _ superclasses =>
      .bind (.declareClass names superclasses declared) fun _ _ _ => .pure .normal
  | some occurrence =>
    simp only [Eval.exec]
    have parent := Alike.bind (ih.eval (.variable occurrence)) fun _ _ value =>
      Alike.superclassOf occurrence.name value
    exact .bind (.map parent fun _ _ classes => .some classes) fun _ _ superclasses =>
      .bind (.declareClass names superclasses declared) fun _ _ _ => .pure .normal

/-- One case for each kind of statement. -/
theorem exec_succ {s s' : Stmt} (like : s.Alike m s') :
    Alike m (Completion.Alike m) (Eval.exec (fuel + 1) s) (Eval.exec (fuel + 1) s') := by
  cases like
  all_goals try simp only [Eval.exec]
  case print lines value =>
    exact .bind (ih.eval value) fun _ _ value => .bind (.printValue value lines) fun _ _ _ =>
      .pure .normal
  case expression value => exact .bind (ih.eval value) fun _ _ _ => .pure .normal
  case varDecl names initializer =>
    rw [names.text]
    exact .bind (ih.evalOptional initializer) fun _ _ value => .bind (.define _ value)
      fun _ _ _ => .pure .normal
  case block statements =>
    refine .bind .childScope ?_
    rintro scope _ rfl
    exact .within scope (ih.execAll statements)
  case ifThen condition branch =>
    refine .bind (ih.eval condition) fun v v' value => ?_
    rw [value.isTruthy_eq]
    exact .ite Iff.rfl (ih.exec branch) (.pure .normal)
  case ifElse condition branch otherwise =>
    refine .bind (ih.eval condition) fun v v' value => ?_
    rw [value.isTruthy_eq]
    exact .ite Iff.rfl (ih.exec branch) (ih.exec otherwise)
  case whileLoop condition body => exact ih.whileLoop condition body
  case forEach lines names iterable body =>
    refine .bind (ih.eval iterable) fun v v' value => ?_
    cases value with
    | inst id =>
      exact .bind (ih.invoke _ (.inst id) .nil lines) fun _ _ iterator =>
        .bind (.cursorFor iterator) fun _ _ cursor => ih.forEach cursor lines names body
    | _ => exact .fail _ lines
  case funDecl declared =>
    refine .bind .get fun t t' like => ?_
    rw [like.scope, declared.name.text]
    exact .bind (.newClosure declared _ _) fun _ _ closure =>
      .bind (.define _ (.callable (.closure closure))) fun _ _ _ => .pure .normal
  case ret lines given =>
    exact .bind (ih.evalOptional given) fun _ _ value => .pure (.returned value)
  case classDecl names superclass declared => exact ih.classDecl_succ names superclass declared

/-- Statements are executed up to the first that does not complete normally. -/
theorem execAll_succ {body body' : List Stmt} (likes : Stmt.AlikeAll m body body') :
    Alike m (Completion.Alike m) (Eval.execAll (fuel + 1) body)
      (Eval.execAll (fuel + 1) body') := by
  cases likes with
  | nil =>
    simp only [Eval.execAll]
    exact .pure .normal
  | cons first rest =>
    simp only [Eval.execAll]
    refine .bind (ih.exec first) fun c c' completion => ?_
    cases completion with
    | normal => exact ih.execAll rest
    | returned value => exact .pure (.returned value)

theorem whileLoop_succ {e e' : Expr} {s s' : Stmt} (condition : e.Alike m e')
    (body : s.Alike m s') :
    Alike m (Completion.Alike m) (Eval.whileLoop (fuel + 1) e s)
      (Eval.whileLoop (fuel + 1) e' s') := by
  simp only [Eval.whileLoop]
  refine .bind (ih.eval condition) fun v v' value => ?_
  rw [value.isTruthy_eq]
  refine .ite Iff.rfl (.bind (ih.exec body) fun c c' completion => ?_) (.pure .normal)
  cases completion with
  | normal => exact ih.whileLoop condition body
  | returned value => exact .pure (.returned value)

variable {c c' : Cursor} (cursor : c.Alike m c') (lines : m.lines line line')

include cursor lines

/-- A turn of a loop and the turns behind it. -/
theorem forEach_succ {name name' : Name} {s s' : Stmt} (names : name.Alike m name')
    (body : s.Alike m s') :
    Alike m (Completion.Alike m) (Eval.forEach (fuel + 1) c line name s)
      (Eval.forEach (fuel + 1) c' line' name' s') := by
  simp only [Eval.forEach]
  rw [names.text]
  refine .bind (ih.cursorHasItems cursor lines) ?_
  rintro more _ rfl
  refine .ite Iff.rfl (.bind .childScope ?_) (.pure .normal)
  rintro scope _ rfl
  refine .bind (ih.cursorCurrent cursor lines) fun _ _ value =>
    .bind (.defineIn scope _ value) fun _ _ _ =>
      .bind (.within scope (ih.exec body)) fun d d' completion => ?_
  cases completion with
  | normal =>
    exact .bind (ih.cursorAdvance cursor lines) fun _ _ _ => ih.forEach cursor lines names body
  | returned value => exact .pure (.returned value)

/-- A cursor is stepped by itself or by calls. -/
theorem cursorHasItems_succ :
    Alike m (· = ·) (Eval.cursorHasItems (fuel + 1) c line)
      (Eval.cursorHasItems (fuel + 1) c' line') := by
  cases cursor <;> simp only [Eval.cursorHasItems]
  case direct id => exact .iteratorHasItems id lines
  case protocol iterator =>
    exact .bind (ih.invoke _ iterator .nil lines) fun _ _ value => .pure value.isTruthy_eq

theorem cursorCurrent_succ :
    Alike m (Value.Alike m) (Eval.cursorCurrent (fuel + 1) c line)
      (Eval.cursorCurrent (fuel + 1) c' line') := by
  cases cursor <;> simp only [Eval.cursorCurrent]
  case direct id => exact .iteratorCurrent id lines
  case protocol iterator => exact ih.invoke _ iterator .nil lines

theorem cursorAdvance_succ :
    Alike m (· = ·) (Eval.cursorAdvance (fuel + 1) c line)
      (Eval.cursorAdvance (fuel + 1) c' line') := by
  cases cursor with
  | direct id =>
    rw [Eval.cursorAdvance.eq_2 _ _ _ (Nat.succ_ne_zero fuel),
      Eval.cursorAdvance.eq_2 _ _ _ (Nat.succ_ne_zero fuel)]
    exact .iteratorAdvance id lines
  | protocol iterator =>
    rw [Eval.cursorAdvance, Eval.cursorAdvance]
    exact .bind (ih.invoke _ iterator .nil lines) fun _ _ _ => .pure rfl

omit cursor lines in
/-- One more unit of fuel. -/
theorem succ : Simulates m (fuel + 1) where
  eval := ih.eval_succ
  evalAll := ih.evalAll_succ
  evalOptional := ih.evalOptional_succ
  call := ih.call_succ
  apply := ih.apply_succ
  applyMethod := ih.applyMethod_succ
  applyClosure := ih.applyClosure_succ
  invoke name := ih.invoke_succ name
  exec := ih.exec_succ
  execAll := ih.execAll_succ
  whileLoop := ih.whileLoop_succ
  forEach cursor lines names body := ih.forEach_succ cursor lines names body
  cursorHasItems := ih.cursorHasItems_succ
  cursorCurrent := ih.cursorCurrent_succ
  cursorAdvance := ih.cursorAdvance_succ

end Simulates

/-- **Evaluation does not depend on ids and lines**, save for the lines of errors. -/
theorem simulates (m : Likeness) : ∀ fuel, Simulates m fuel
  | 0 => .zero
  | fuel + 1 => (simulates m fuel).succ

/-- Programs that are alike run alike. -/
theorem alike_run (fuel : Nat) {program program' : List Stmt}
    (likes : Stmt.AlikeAll m program program') :
    Alike m (· = ·) (run fuel program) (run fuel program') := by
  induction program generalizing program' with
  | nil =>
    cases likes
    exact .pure rfl
  | cons s rest ih =>
    cases likes with
    | cons first others =>
      refine .bind ((simulates m fuel).exec first) fun c c' completion => ?_
      cases completion with
      | normal => exact ih others
      | returned value => exact .pure rfl

end Lox.Eval
