/-
# Programs with other names for local variables run alike

With two ordinary names, whatever is evaluated follows what was evaluated before the variables got
their other name.  `Tracks fuel` says so of each function of the evaluator, with so much fuel; it is
carried from one amount of fuel to the next (`Tracks.succ`).  A scope is marked if the relation of
the two pieces of code that are run in it says so.  What was known about values before an evaluation
is known after it too, in a world that has grown.
-/
import Lox.Proofs.Eval.Renaming

namespace Lox.Eval

variable {ρ : Renaming} {r : Resolution} {w : World} {marks : Marks}

/-! ## 1. Classes, methods and calls

What code makes, and what binding and calling do with it. -/

namespace Kin

/-- A closure that is made in a scope, from a declaration that goes with its marks. -/
theorem newClosure (inner : Marks) {scope : ScopeId} {around : Marks}
    (here : w[scope]? = some around) {d d' : FunDecl}
    (declared : d.Renamed ρ r (inner ++ around) d') (isInitializer : Bool) :
    Kin (ρ.run r w marks) (Closure.Renamed ρ r w inner) (Eval.newClosure d scope isInitializer)
      (Eval.newClosure d' scope isInitializer) := by
  refine .bind .freshStamp ?_
  rintro stamp _ rfl
  exact .pure ⟨rfl, rfl, rfl, around, here, declared⟩

/-- The methods of a class are declared in the scope of its superclass, if it has one. -/
theorem newMethods {scope : ScopeId} {around : Marks} (here : w[scope]? = some around)
    {ds ds' : List FunDecl} (declared : FunDecl.RenamedAll ρ r (false :: around) ds ds')
    {methods methods' : Bindings Closure}
    (made : methods.Rel (Closure.Renamed ρ r w [false]) methods') :
    Kin (ρ.run r w marks)
      (fun methods methods' => methods.Rel (Closure.Renamed ρ r w [false]) methods')
      (Eval.newMethods scope ds methods) (Eval.newMethods scope ds' methods') := by
  induction ds generalizing ds' methods methods' with
  | nil =>
    cases declared
    exact .pure made
  | cons d rest ih =>
    cases declared with
    | cons first others =>
      rw [Eval.newMethods, Eval.newMethods, FunDecl.isInitializer, FunDecl.isInitializer,
        first.name_eq]
      exact .bind (.newClosure [false] here first _) fun _ _ closure =>
        ih others (made.insert _ closure)

/-- The parameters of a call have new names just if its scope is marked. -/
theorem defineAll {scope : ScopeId} {mark : Bool} {outer : Marks}
    (here : w[scope]? = some (mark :: outer)) {names names' : List Name}
    (parameters : List.Forall₂ (Name.Renamed ρ mark) names names') {values values' : List Value}
    (arguments : List.Forall₂ (ρ.values r w) values values') :
    Kin (ρ.run r w marks) (· = ·) (Eval.defineAll scope names values)
      (Eval.defineAll scope names' values') := by
  induction parameters generalizing values values' with
  | nil => exact .pure rfl
  | cons name names ih =>
    cases arguments with
    | nil => exact .pure rfl
    | cons value values =>
      rw [Eval.defineAll, Eval.defineAll]
      exact .bind (.defineIn here name.text value) fun _ _ _ => ih values

/-- The receiver of a method is found in the scope around its body. -/
theorem callResult (ordinary : ρ.Ordinary) {inner : Marks} {c c' : Closure}
    (closure : c.Renamed ρ r w inner c') {completion completion' : Completion}
    (completions : completion.Kin (ρ.kinship r w) completion') :
    Kin (ρ.run r w marks) (ρ.values r w) (Eval.callResult c completion)
      (Eval.callResult c' completion') := by
  obtain ⟨around, here, declared⟩ := closure.declaration
  unfold Eval.callResult
  rw [closure.isInitializer, ← closure.scope, declared.name_eq]
  refine .ite Iff.rfl (.bind .get fun s s' kin => ?_) (.pure completions.value)
  obtain ⟨scopes, -⟩ := kin.variables
  rcases rel_cases (scopes.getAt? here 0 (.this ordinary _)) with
    ⟨left, right⟩ | ⟨receiver, receiver', left, right, value⟩ <;> rw [left, right]
  · exact .fail _ rfl
  · exact .pure value

end Kin

namespace Follows

/-- A method that is bound to an instance gets a scope that is not marked. -/
theorem bindMethod (receiver : InstanceId) {method method' : Method}
    (methods : method.Rel (Closure.Renamed ρ r w [false]) method') :
    Follows ρ r w marks (fun w => BoundMethod.Kin (ρ.kinship r w))
      (Eval.bindMethod receiver method) (Eval.bindMethod receiver method') := by
  cases methods with
  | builtin method => exact .pure ⟨rfl, .builtin method⟩
  | @declared c c' closure =>
    obtain ⟨around, here, declared⟩ := closure.declaration
    simp only [Eval.bindMethod]
    rw [← closure.scope]
    refine .bind (.newScope here false) ?_
    rintro w' le scope _ ⟨rfl, inside⟩
    refine .act (.defineIn inside (.unmarked "this") (.inst receiver)) fun _ _ _ =>
      .act .freshStamp ?_
    rintro stamp _ rfl
    exact .pure ⟨rfl, .declared ⟨rfl, rfl, closure.isInitializer, _, inside, declared⟩⟩

/-- Properties are not renamed. -/
theorem getProperty (id : InstanceId) (name : String) (line : Nat) :
    Follows ρ r w marks (ρ.values r) (Eval.getProperty id name line)
      (Eval.getProperty id name line) := by
  refine .act .get fun s s' kin => ?_
  dsimp only
  rcases rel_cases (kin.heap.field? id name) with
    ⟨left, right⟩ | ⟨v, v', left, right, value⟩ <;> rw [left, right]
  · have found := rel_bind (kin.heap.class? id) fun _ _ cls => cls.findMethod? name
    rcases rel_cases found with ⟨left, right⟩ | ⟨method, method', left, right, methods⟩ <;>
      rw [left, right]
    · exact .fail _ _
    · exact .map (.bindMethod id methods) fun _ _ _ bound => .callable (.bound bound)
  · exact .pure value

/-- `super` and `this` are not renamed, so they are found as before. -/
theorem superMethod (ordinary : ρ.Ordinary) (id : Id) (line : Nat) (method : Name) :
    Follows ρ r w marks (ρ.values r) (Eval.superMethod id line method)
      (Eval.superMethod id line method) := by
  refine .act .get fun s s' kin => ?_
  obtain ⟨scopes, scope, here, resolution, resolution'⟩ := kin.variables
  rw [resolution, resolution', ← scope]
  cases r.binding id with
  | global => exact .fail _ _
  | «local» hops =>
    cases hops with
    | zero => exact .fail _ _
    | succ inner =>
      dsimp only
      rcases rel_cases (scopes.getAt? here (inner + 1) (.super ordinary _)) with
        ⟨left, right⟩ | ⟨cls, cls', left, right, classes⟩ <;> rw [left, right]
      · exact .fail _ _
      rcases rel_cases (scopes.getAt? here inner (.this ordinary _)) with
        ⟨left, right⟩ | ⟨receiver, receiver', left, right, receivers⟩ <;> rw [left, right]
      · cases classes with
        | callable callable => cases callable <;> exact .fail _ _
        | _ => exact .fail _ _
      · cases classes with
        | callable callable =>
          cases callable with
          | «class» classes =>
            cases receivers with
            | inst id =>
              dsimp only
              rcases rel_cases (classes.findMethod? method.text) with
                ⟨left, right⟩ | ⟨found, found', left, right, methods⟩ <;> rw [left, right]
              · exact .fail _ _
              · exact .map (.bindMethod id methods) fun _ _ _ bound => .callable (.bound bound)
            | _ => exact .fail _ _
          | _ => exact .fail _ _
        | _ => exact .fail _ _

/-- The scope of the superclass is not marked. -/
theorem methodScope {superclass superclass' : Option Class}
    (superclasses : Option.Rel (Class.Kin (ρ.kinship r w)) superclass superclass') :
    Follows ρ r w marks
      (fun w i i' => i = i' ∧ w[i]? = some (marks.ofClass superclass.isSome))
      (Eval.methodScope superclass) (Eval.methodScope superclass') := by
  cases superclasses with
  | none =>
    refine .of_kin (.map .get fun s s' kin => ?_)
    obtain ⟨-, scope, here, -⟩ := kin.variables
    exact ⟨scope, here⟩
  | some classes =>
    refine .bind (.childScope false) ?_
    rintro w' le scope _ ⟨rfl, inside⟩
    have value := (Value.Kin.callable (.class classes)).grow le
    exact .act (.defineIn inside (.unmarked "super") value) fun _ _ _ => .pure ⟨rfl, inside⟩

/-- A class keeps its name. -/
theorem declareClass {name : Name}
    (kept : ρ.Names (marks.headD false) name.text name.text)
    {superclass superclass' : Option Class}
    (superclasses : Option.Rel (Class.Kin (ρ.kinship r w)) superclass superclass')
    {methods methods' : List FunDecl}
    (declared : FunDecl.RenamedAll ρ r (false :: marks.ofClass superclass.isSome)
      methods methods') :
    Follows ρ r w marks (fun _ => (· = ·)) (Eval.declareClass name superclass methods)
      (Eval.declareClass name superclass' methods') := by
  unfold Eval.declareClass
  refine .act (.define kept .nil) fun _ _ _ => .bind (.methodScope superclasses) ?_
  rintro w' le scope _ ⟨rfl, inside⟩
  refine .act .freshStamp ?_
  rintro stamp _ rfl
  refine .act (.newMethods inside declared .empty) fun made made' closures =>
    .of_kin (.define kept ?_)
  have info : ClassInfo.Kin (ρ.kinship r w') ⟨stamp, name.text, made⟩ ⟨stamp, name.text, made'⟩ :=
    ⟨rfl, rfl, closures⟩
  cases superclasses with
  | none => exact .callable (.class (.base info))
  | some classes => exact .callable (.class (.derived info (classes.mono (ρ.le_kinship le))))

/-- Functions that have no fuel left. -/
theorem exhausted {α β : Type} {R : World → α → β → Prop} {x : Eval α} {y : Eval β}
    (left : x = outOfFuel) (right : y = outOfFuel) : Follows ρ r w marks R x y := by
  rw [left, right]
  exact .throw _ .outOfFuel

end Follows

/-! ## 2. With some fuel

`Tracks` has one field for each function of the evaluator, since they call each other. -/

/-- With so much fuel every function of the evaluator follows itself on what is renamed. -/
structure Tracks (ρ : Renaming) (r : Resolution) (fuel : Nat) : Prop where
  eval : ∀ {w : World} {marks : Marks} {e e' : Expr}, e.Renamed ρ r marks e' →
    Follows ρ r w marks (ρ.values r) (eval fuel e) (eval fuel e')
  evalAll : ∀ {w : World} {marks : Marks} {es es' : List Expr}, Expr.RenamedAll ρ r marks es es' →
    Follows ρ r w marks (fun w => List.Forall₂ (ρ.values r w)) (evalAll fuel es) (evalAll fuel es')
  evalOptional : ∀ {w : World} {marks : Marks} {e e' : Option Expr},
    Option.Rel (Expr.Renamed ρ r marks) e e' →
    Follows ρ r w marks (ρ.values r) (evalOptional fuel e) (evalOptional fuel e')
  call : ∀ {w : World} {marks : Marks} {v v' : Value} {values values' : List Value} (line : Nat),
    ρ.values r w v v' → List.Forall₂ (ρ.values r w) values values' →
    Follows ρ r w marks (ρ.values r) (call fuel v values line) (call fuel v' values' line)
  apply : ∀ {w : World} {marks : Marks} {c c' : Callable} {values values' : List Value}
    (line : Nat), c.Kin (ρ.kinship r w) c' → List.Forall₂ (ρ.values r w) values values' →
    Follows ρ r w marks (ρ.values r) (apply fuel c values line) (apply fuel c' values' line)
  applyMethod : ∀ {w : World} {marks : Marks} {b b' : BoundMethod} {values values' : List Value}
    (line : Nat), b.Kin (ρ.kinship r w) b' → List.Forall₂ (ρ.values r w) values values' →
    Follows ρ r w marks (ρ.values r) (applyMethod fuel b values line)
      (applyMethod fuel b' values' line)
  applyClosure : ∀ {w : World} {marks : Marks} {c c' : Closure} {values values' : List Value},
    c.Renamed ρ r w [] c' → List.Forall₂ (ρ.values r w) values values' →
    Follows ρ r w marks (ρ.values r) (applyClosure fuel c values) (applyClosure fuel c' values')
  invoke : ∀ {w : World} {marks : Marks} {v v' : Value} {values values' : List Value}
    (name : String) (line : Nat),
    ρ.values r w v v' → List.Forall₂ (ρ.values r w) values values' →
    Follows ρ r w marks (ρ.values r) (invoke fuel v name values line)
      (invoke fuel v' name values' line)
  exec : ∀ {w : World} {marks : Marks} {s s' : Stmt}, s.Renamed ρ r marks s' →
    Follows ρ r w marks (fun w => Completion.Kin (ρ.kinship r w)) (exec fuel s) (exec fuel s')
  execAll : ∀ {w : World} {marks : Marks} {body body' : List Stmt},
    Stmt.RenamedAll ρ r marks body body' →
    Follows ρ r w marks (fun w => Completion.Kin (ρ.kinship r w)) (execAll fuel body)
      (execAll fuel body')
  whileLoop : ∀ {w : World} {marks : Marks} {e e' : Expr} {s s' : Stmt},
    e.Renamed ρ r marks e' → s.Renamed ρ r marks s' →
    Follows ρ r w marks (fun w => Completion.Kin (ρ.kinship r w)) (whileLoop fuel e s)
      (whileLoop fuel e' s')
  forEach : ∀ {w : World} {marks : Marks} {c c' : Cursor} {name name' : Name} {s s' : Stmt}
    (line : Nat) (mark : Bool), c.Kin (ρ.kinship r w) c' → name.Renamed ρ mark name' →
    s.Renamed ρ r (mark :: marks) s' →
    Follows ρ r w marks (fun w => Completion.Kin (ρ.kinship r w)) (forEach fuel c line name s)
      (forEach fuel c' line name' s')
  cursorHasItems : ∀ {w : World} {marks : Marks} {c c' : Cursor} (line : Nat),
    c.Kin (ρ.kinship r w) c' →
    Follows ρ r w marks (fun _ => (· = ·)) (cursorHasItems fuel c line)
      (cursorHasItems fuel c' line)
  cursorCurrent : ∀ {w : World} {marks : Marks} {c c' : Cursor} (line : Nat),
    c.Kin (ρ.kinship r w) c' →
    Follows ρ r w marks (ρ.values r) (cursorCurrent fuel c line) (cursorCurrent fuel c' line)
  cursorAdvance : ∀ {w : World} {marks : Marks} {c c' : Cursor} (line : Nat),
    c.Kin (ρ.kinship r w) c' →
    Follows ρ r w marks (fun _ => (· = ·)) (cursorAdvance fuel c line)
      (cursorAdvance fuel c' line)

namespace Tracks

/-- Without fuel nothing is evaluated. -/
theorem zero : Tracks ρ r 0 where
  eval _ := .exhausted (Eval.eval.eq_1 _) (Eval.eval.eq_1 _)
  evalAll _ := .exhausted (Eval.evalAll.eq_1 _) (Eval.evalAll.eq_1 _)
  evalOptional _ := .exhausted (Eval.evalOptional.eq_1 _) (Eval.evalOptional.eq_1 _)
  call _ _ _ := .exhausted (Eval.call.eq_1 _ _ _) (Eval.call.eq_1 _ _ _)
  apply _ _ _ := .exhausted (Eval.apply.eq_1 _ _ _) (Eval.apply.eq_1 _ _ _)
  applyMethod _ _ _ := .exhausted (Eval.applyMethod.eq_1 _ _ _) (Eval.applyMethod.eq_1 _ _ _)
  applyClosure _ _ := .exhausted (Eval.applyClosure.eq_1 _ _) (Eval.applyClosure.eq_1 _ _)
  invoke _ _ _ _ := .exhausted (Eval.invoke.eq_1 _ _ _ _) (Eval.invoke.eq_1 _ _ _ _)
  exec _ := .exhausted (Eval.exec.eq_1 _) (Eval.exec.eq_1 _)
  execAll _ := .exhausted (Eval.execAll.eq_1 _) (Eval.execAll.eq_1 _)
  whileLoop _ _ := .exhausted (Eval.whileLoop.eq_1 _ _) (Eval.whileLoop.eq_1 _ _)
  forEach _ _ _ _ _ := .exhausted (Eval.forEach.eq_1 _ _ _ _) (Eval.forEach.eq_1 _ _ _ _)
  cursorHasItems _ _ := .exhausted (Eval.cursorHasItems.eq_1 _ _) (Eval.cursorHasItems.eq_1 _ _)
  cursorCurrent _ _ := .exhausted (Eval.cursorCurrent.eq_1 _ _) (Eval.cursorCurrent.eq_1 _ _)
  cursorAdvance _ _ := .exhausted (Eval.cursorAdvance.eq_1 _ _) (Eval.cursorAdvance.eq_1 _ _)

section Succ

variable {fuel : Nat} (ih : Tracks ρ r fuel)

include ih

/-! ## 3. Expressions

Each function with one unit of fuel more, from all of them with what is left. -/

/-- Expressions are evaluated one after the other, in a world that may grow each time. -/
theorem evalAll_succ {es es' : List Expr} (renamed : Expr.RenamedAll ρ r marks es es') :
    Follows ρ r w marks (fun w => List.Forall₂ (ρ.values r w)) (Eval.evalAll (fuel + 1) es)
      (Eval.evalAll (fuel + 1) es') := by
  cases renamed with
  | nil =>
    simp only [Eval.evalAll]
    exact .pure .nil
  | cons first rest =>
    simp only [Eval.evalAll]
    exact .bind (ih.eval first) fun _ _ _ _ value => .bind (ih.evalAll rest)
      fun _ le _ _ values => .pure (.cons (value.grow le) values)

theorem evalOptional_succ {e e' : Option Expr}
    (renamed : Option.Rel (Expr.Renamed ρ r marks) e e') :
    Follows ρ r w marks (ρ.values r) (Eval.evalOptional (fuel + 1) e)
      (Eval.evalOptional (fuel + 1) e') := by
  cases renamed with
  | none =>
    simp only [Eval.evalOptional]
    exact .pure .nil
  | some renamed =>
    simp only [Eval.evalOptional]
    exact ih.eval renamed

/-- One case for each kind of expression. -/
theorem eval_succ (ordinary : ρ.Ordinary) {e e' : Expr} (renamed : e.Renamed ρ r marks e') :
    Follows ρ r w marks (ρ.values r) (Eval.eval (fuel + 1) e) (Eval.eval (fuel + 1) e') := by
  cases renamed <;> simp only [Eval.eval]
  case literal value => exact .pure (.literal value)
  case grouping inner => exact ih.eval inner
  case unary op line _ _ operand =>
    exact .bind (ih.eval operand) fun _ _ _ _ value => .of_kin (.unary op rfl value)
  case binary op line _ _ _ _ left right =>
    exact .bind (ih.eval left) fun _ _ _ _ value => .bind (ih.eval right) fun _ le _ _ value' =>
      .of_kin (.binary op rfl (value.grow le) value')
  case logical op line _ _ _ _ left right =>
    refine .bind (ih.eval left) fun _ _ v v' value => ?_
    rw [Kin.decides_eq op value]
    exact .ite Iff.rfl (.pure value) (ih.eval right)
  case «variable» occurrence =>
    rw [← occurrence.id, ← occurrence.name.line]
    exact .of_kin (.readVariable _ occurrence.name.text _)
  case assign target value =>
    exact .bind (ih.eval value) fun _ _ _ _ value => .act (.writeVariable target value)
      fun _ _ _ => .pure value
  case call callee arguments line =>
    exact .bind (ih.eval callee) fun _ _ _ _ value => .bind (ih.evalAll arguments)
      fun _ le _ _ values => ih.call line (value.grow le) values
  case get object property =>
    refine .bind (ih.eval object) fun _ _ v v' value => ?_
    cases value with
    | inst id => exact .getProperty id _ _
    | _ => exact .fail _ _
  case set object property value =>
    refine .bind (ih.eval object) fun _ _ v v' target => ?_
    cases target with
    | inst id =>
      exact .bind (ih.eval value) fun _ _ _ _ value =>
        .act (.modifyHeap fun _ _ kin => kin.setField id _ value) fun _ _ _ => .pure value
    | _ => exact .fail _ _
  case this id line => exact .of_kin (.readVariable id (.this ordinary _) line)
  case super id line method => exact .superMethod ordinary id line method
  case list line elements =>
    exact .bind (ih.evalAll elements) fun _ _ _ _ values => .of_kin (.newList values)

/-! ## 4. Calls

What is called is kin to what is called instead, so both take the same way. -/

variable {values values' : List Value} (line : Nat)
  (arguments : List.Forall₂ (ρ.values r w) values values')

include arguments

/-- The callee is a callable on both sides, or on neither. -/
theorem call_succ {v v' : Value} (callee : ρ.values r w v v') :
    Follows ρ r w marks (ρ.values r) (Eval.call (fuel + 1) v values line)
      (Eval.call (fuel + 1) v' values' line) := by
  cases callee with
  | callable callable =>
    simp only [Eval.call]
    rw [callable.arity_eq, arguments.length_eq]
    exact .ite Iff.rfl (.nested line (ih.apply line callable arguments)) (.fail _ _)
  | _ =>
    simp only [Eval.call]
    exact .fail _ _

/-- A class makes an instance, a closure runs its body, and all else is built in. -/
theorem apply_succ {c c' : Callable} (callable : c.Kin (ρ.kinship r w) c') :
    Follows ρ r w marks (ρ.values r) (Eval.apply (fuel + 1) c values line)
      (Eval.apply (fuel + 1) c' values' line) := by
  cases callable <;> simp only [Eval.apply]
  case builtin function => exact .of_kin (.callFunction function arguments rfl)
  case closure closure => exact ih.applyClosure closure arguments
  case bound method => exact ih.applyMethod line method arguments
  case «class» classes =>
    refine .act (.newInstance classes none) ?_
    rintro id _ rfl
    rcases rel_cases (classes.findMethod? initializerName) with
      ⟨left, right⟩ | ⟨initializer, initializer', left, right, methods⟩ <;> rw [left, right]
    · exact .pure (.inst id)
    · exact .bind (.bindMethod id methods) fun _ le _ _ bound =>
        .bind (ih.applyMethod line bound (Value.Kin.grow_all le arguments))
          fun _ _ _ _ _ => .pure (.inst id)

/-- A method that is declared is a closure, and one that is built in is the same on both sides. -/
theorem applyMethod_succ {b b' : BoundMethod} (bound : b.Kin (ρ.kinship r w) b') :
    Follows ρ r w marks (ρ.values r) (Eval.applyMethod (fuel + 1) b values line)
      (Eval.applyMethod (fuel + 1) b' values' line) := by
  obtain ⟨receiver, method⟩ := b
  obtain ⟨receiver', method'⟩ := b'
  obtain ⟨rfl, methods⟩ := bound
  cases methods <;> simp only [Eval.applyMethod]
  case builtin method => exact .of_kin (.callMethod method _ arguments rfl)
  case declared closure => exact ih.applyClosure closure arguments

/-- The scope of a call is marked if the one of the declaration is. -/
theorem applyClosure_succ (ordinary : ρ.Ordinary) {c c' : Closure}
    (closure : c.Renamed ρ r w [] c') :
    Follows ρ r w marks (ρ.values r) (Eval.applyClosure (fuel + 1) c values)
      (Eval.applyClosure (fuel + 1) c' values') := by
  obtain ⟨around, here, declared⟩ := closure.declaration
  simp only [Eval.applyClosure]
  rw [← closure.scope]
  generalize body : c.declaration = d at declared ⊢
  generalize body' : c'.declaration = d' at declared ⊢
  cases declared with
  | mk mark name parameters statements =>
    refine .bind (.newScope here mark) ?_
    rintro w' le scope _ ⟨rfl, inside⟩
    refine .act (.defineAll inside parameters (Value.Kin.grow_all le arguments)) fun _ _ _ => ?_
    exact .bind (.within inside (ih.execAll statements)) fun w'' le' _ _ completion =>
      .of_kin (.callResult ordinary (closure.mono (le.trans le')) completion)

/-- A method that is called by its name. -/
theorem invoke_succ {v v' : Value} (name : String) (receiver : ρ.values r w v v') :
    Follows ρ r w marks (ρ.values r) (Eval.invoke (fuel + 1) v name values line)
      (Eval.invoke (fuel + 1) v' name values' line) := by
  cases receiver <;> simp only [Eval.invoke]
  case inst id =>
    exact .bind (.getProperty id name line) fun _ le _ _ value =>
      ih.call line value (Value.Kin.grow_all le arguments)
  all_goals exact .fail _ _

omit arguments

/-! ## 5. Statements

As for expressions. -/

/-- The superclass is evaluated first, and the class is then declared. -/
theorem classDecl_succ {name : Name} (kept : ρ.Names (marks.headD false) name.text name.text)
    {superclass superclass' : Option Variable}
    (superclasses : Option.Rel (Variable.Renamed ρ r marks) superclass superclass')
    {methods methods' : List FunDecl}
    (declared : FunDecl.RenamedAll ρ r (false :: marks.ofClass superclass.isSome)
      methods methods') :
    Follows ρ r w marks (fun w => Completion.Kin (ρ.kinship r w))
      (Eval.exec (fuel + 1) (.classDecl name superclass methods))
      (Eval.exec (fuel + 1) (.classDecl name superclass' methods')) := by
  cases superclasses with
  | none =>
    simp only [Eval.exec, pure_bind]
    exact .bind (.declareClass kept .none declared) fun _ _ _ _ _ => .pure .normal
  | some occurrence =>
    simp only [Eval.exec, bind_map_left]
    refine .bind (.bind (ih.eval (.variable occurrence)) fun _ _ _ _ value =>
      .of_kin (.superclassOf occurrence.name.line value)) fun _ _ _ _ classes => ?_
    exact .bind (.declareClass kept (.some classes) declared) fun _ _ _ _ _ => .pure .normal

/-- One case for each kind of statement.  Where a scope opens it is marked as the relation of the
two statements says. -/
theorem exec_succ {s s' : Stmt} (renamed : s.Renamed ρ r marks s') :
    Follows ρ r w marks (fun w => Completion.Kin (ρ.kinship r w)) (Eval.exec (fuel + 1) s)
      (Eval.exec (fuel + 1) s') := by
  cases renamed
  all_goals try simp only [Eval.exec]
  case print value =>
    exact .bind (ih.eval value) fun _ _ _ _ value => .act (.printValue value rfl) fun _ _ _ =>
      .pure .normal
  case expression value => exact .bind (ih.eval value) fun _ _ _ _ _ => .pure .normal
  case varDecl names initializer =>
    exact .bind (ih.evalOptional initializer) fun _ _ _ _ value => .act (.define names.text value)
      fun _ _ _ => .pure .normal
  case block mark _ _ statements =>
    refine .bind (.childScope mark) ?_
    rintro w' le scope _ ⟨rfl, inside⟩
    exact .within inside (ih.execAll statements)
  case ifThen condition branch =>
    refine .bind (ih.eval condition) fun _ _ v v' value => ?_
    rw [value.isTruthy_eq]
    exact .ite Iff.rfl (ih.exec branch) (.pure .normal)
  case ifElse condition branch otherwise =>
    refine .bind (ih.eval condition) fun _ _ v v' value => ?_
    rw [value.isTruthy_eq]
    exact .ite Iff.rfl (ih.exec branch) (ih.exec otherwise)
  case whileLoop condition body => exact ih.whileLoop condition body
  case forEach mark line _ _ _ _ _ _ names iterable body =>
    refine .bind (ih.eval iterable) fun _ _ v v' value => ?_
    cases value with
    | inst id =>
      exact .bind (ih.invoke _ line (.inst id) .nil) fun _ _ _ _ iterator =>
        .act (.cursorFor iterator) fun _ _ cursor => ih.forEach line mark cursor names body
    | _ => exact .fail _ _
  case funDecl kept declared =>
    refine .act .get fun t t' kin => ?_
    obtain ⟨-, scope, here, -⟩ := kin.variables
    rw [← scope, ← declared.name_eq]
    exact .act (.newClosure [] here declared false) fun _ _ closure =>
      .act (.define kept (.callable (.closure closure))) fun _ _ _ => .pure .normal
  case ret given =>
    exact .bind (ih.evalOptional given) fun _ _ _ _ value => .pure (.returned value)
  case classDecl kept superclass declared => exact ih.classDecl_succ kept superclass declared

/-- Statements are executed up to the first that does not complete normally. -/
theorem execAll_succ {body body' : List Stmt} (renamed : Stmt.RenamedAll ρ r marks body body') :
    Follows ρ r w marks (fun w => Completion.Kin (ρ.kinship r w))
      (Eval.execAll (fuel + 1) body) (Eval.execAll (fuel + 1) body') := by
  cases renamed with
  | nil =>
    simp only [Eval.execAll]
    exact .pure .normal
  | cons first rest =>
    simp only [Eval.execAll]
    refine .bind (ih.exec first) fun _ _ c c' completion => ?_
    cases completion with
    | normal => exact ih.execAll rest
    | returned value => exact .pure (.returned value)

/-- A turn of a loop, and the turns behind it. -/
theorem whileLoop_succ {e e' : Expr} {s s' : Stmt} (condition : e.Renamed ρ r marks e')
    (body : s.Renamed ρ r marks s') :
    Follows ρ r w marks (fun w => Completion.Kin (ρ.kinship r w))
      (Eval.whileLoop (fuel + 1) e s) (Eval.whileLoop (fuel + 1) e' s') := by
  simp only [Eval.whileLoop]
  refine .bind (ih.eval condition) fun _ _ v v' value => ?_
  rw [value.isTruthy_eq]
  refine .ite Iff.rfl (.bind (ih.exec body) fun _ _ c c' completion => ?_) (.pure .normal)
  cases completion with
  | normal => exact ih.whileLoop condition body
  | returned value => exact .pure (.returned value)

variable {c c' : Cursor} (cursor : c.Kin (ρ.kinship r w) c')

include cursor

/-- A cursor is stepped by itself or by calls. -/
theorem cursorHasItems_succ :
    Follows ρ r w marks (fun _ => (· = ·)) (Eval.cursorHasItems (fuel + 1) c line)
      (Eval.cursorHasItems (fuel + 1) c' line) := by
  cases cursor <;> simp only [Eval.cursorHasItems]
  case direct id => exact .of_kin (.iteratorHasItems id rfl)
  case protocol iterator =>
    exact .bind (ih.invoke _ line iterator .nil) fun _ _ _ _ value => .pure value.isTruthy_eq

theorem cursorCurrent_succ :
    Follows ρ r w marks (ρ.values r) (Eval.cursorCurrent (fuel + 1) c line)
      (Eval.cursorCurrent (fuel + 1) c' line) := by
  cases cursor <;> simp only [Eval.cursorCurrent]
  case direct id => exact .of_kin (.iteratorCurrent id rfl)
  case protocol iterator => exact ih.invoke _ line iterator .nil

theorem cursorAdvance_succ :
    Follows ρ r w marks (fun _ => (· = ·)) (Eval.cursorAdvance (fuel + 1) c line)
      (Eval.cursorAdvance (fuel + 1) c' line) := by
  cases cursor with
  | direct id =>
    rw [Eval.cursorAdvance.eq_2 _ _ _ (Nat.succ_ne_zero fuel)]
    exact .of_kin (.iteratorAdvance id rfl)
  | protocol iterator =>
    rw [Eval.cursorAdvance, Eval.cursorAdvance]
    exact .bind (ih.invoke _ line iterator .nil) fun _ _ _ _ _ => .pure rfl

/-- Each round has a scope of its own, which is marked if the variable of the loop gets the other
name. -/
theorem forEach_succ (mark : Bool) {name name' : Name} {s s' : Stmt}
    (names : name.Renamed ρ mark name') (body : s.Renamed ρ r (mark :: marks) s') :
    Follows ρ r w marks (fun w => Completion.Kin (ρ.kinship r w))
      (Eval.forEach (fuel + 1) c line name s) (Eval.forEach (fuel + 1) c' line name' s') := by
  simp only [Eval.forEach]
  refine .bind (ih.cursorHasItems line cursor) ?_
  rintro w₁ le₁ more _ rfl
  have cursor₁ := cursor.mono (ρ.le_kinship le₁)
  refine .ite Iff.rfl (.bind (.childScope mark) ?_) (.pure .normal)
  rintro w₂ le₂ scope _ ⟨rfl, inside⟩
  have cursor₂ := cursor₁.mono (ρ.le_kinship le₂)
  refine .bind (ih.cursorCurrent line cursor₂) fun w₃ le₃ _ _ value => ?_
  have inside₃ := World.mono le₃ inside
  have cursor₃ := cursor₂.mono (ρ.le_kinship le₃)
  refine .act (.defineIn inside₃ names.text value) fun _ _ _ =>
    .bind (.within inside₃ (ih.exec body)) fun w₄ le₄ d d' completion => ?_
  have cursor₄ := cursor₃.mono (ρ.le_kinship le₄)
  cases completion with
  | normal =>
    exact .bind (ih.cursorAdvance line cursor₄) fun w₅ le₅ _ _ _ =>
      ih.forEach line mark (cursor₄.mono (ρ.le_kinship le₅)) names body
  | returned value => exact .pure (.returned value)

end Succ

/-- One more unit of fuel. -/
theorem succ (ordinary : ρ.Ordinary) {fuel : Nat} (ih : Tracks ρ r fuel) :
    Tracks ρ r (fuel + 1) where
  eval := ih.eval_succ ordinary
  evalAll := ih.evalAll_succ
  evalOptional := ih.evalOptional_succ
  call line callee arguments := ih.call_succ line arguments callee
  apply line callable arguments := ih.apply_succ line arguments callable
  applyMethod line bound arguments := ih.applyMethod_succ line arguments bound
  applyClosure closure arguments := ih.applyClosure_succ arguments ordinary closure
  invoke name line receiver arguments := ih.invoke_succ line arguments name receiver
  exec := ih.exec_succ
  execAll := ih.execAll_succ
  whileLoop := ih.whileLoop_succ
  forEach line mark cursor names body := ih.forEach_succ line cursor mark names body
  cursorHasItems line := ih.cursorHasItems_succ line
  cursorCurrent line := ih.cursorCurrent_succ line
  cursorAdvance line := ih.cursorAdvance_succ line

end Tracks

/-- **Evaluation does not depend on the names of local variables**, with any fuel. -/
theorem tracks (ordinary : ρ.Ordinary) : ∀ fuel, Tracks ρ r fuel
  | 0 => .zero
  | fuel + 1 => (tracks ordinary fuel).succ ordinary

/-- A program with other names for local variables runs alike. -/
theorem follows_run (ordinary : ρ.Ordinary) (fuel : Nat) {program program' : List Stmt}
    (renamed : Stmt.RenamedAll ρ r marks program program') :
    Follows ρ r w marks (fun _ => (· = ·)) (run fuel program) (run fuel program') := by
  induction program generalizing program' w with
  | nil =>
    cases renamed
    exact .pure rfl
  | cons s rest ih =>
    cases renamed with
    | cons first others =>
      refine .bind ((tracks ordinary fuel).exec first) fun _ _ c c' completion => ?_
      cases completion with
      | normal => exact ih others
      | returned value => exact .pure rfl

end Lox.Eval
