/-
# Programs run alike without the scopes of bare blocks

Whatever is evaluated with bare blocks that open no scope follows what is evaluated as the
evaluator does it.  `Tracks` says so of two ways to carry out tasks, for every kind of task; the
code of a task stands in scopes of which those of bare blocks are known (`Erasure.Stands`).  If it
holds of the tasks that a script calls, it holds of the script, and so for any fuel
(`Erasure.tracks`).
-/
import Lox.Proofs.Eval.Erasure
import Lox.Proofs.Eval.Moment

namespace Lox

open Bareness (inwards)
open StaticScope (bindName bindParams)

variable {b : Bareness} {x : Erasure b} {w : Images} {foot : Footing}

/-! ## 1. Classes, methods and calls

Closures keep scopes, which have images, and where a scope is made it gets one. -/

namespace Erasure.Follows

/-- The code of a closure lies in some scopes, which are those around its declaration. -/
theorem newClosure (inner : List Bool) {scope : ScopeId} {around : Image}
    (here : w[scope]? = some around) {stack : List StaticScope}
    (lies : b.marks stack = inner ++ around.marks) {d : FunDecl}
    (fits : x.Fits (Occurrence.ofFunction stack d)) {isInitializer : Bool}
    (receiver : isInitializer = true → (inner ++ around.marks).head? ≠ some true) :
    Eval.Kin (x.run w foot) (Closure.Erased x w inner) (Eval.newClosure d scope isInitializer)
      (Eval.newClosure d around.scope isInitializer) := by
  refine .bind .freshStamp ?_
  rintro stamp _ rfl
  refine .pure ⟨rfl, rfl, rfl, ⟨_, stack, here, lies, fits⟩, ?_⟩
  intro initializes image there
  cases here.symm.trans there
  exact receiver initializes

/-- The methods of a class, each with the same scope and its image. -/
theorem newMethods {scope : ScopeId} {around : Image} (here : w[scope]? = some around)
    {stack : List StaticScope} (lies : b.marks stack = around.marks) {ds : List FunDecl}
    (fits : x.Fits (Occurrence.ofMethods stack ds)) {methods methods' : Bindings Closure}
    (made : methods.Rel (Closure.Erased x w [false]) methods') :
    Eval.Kin (x.run w foot)
      (fun methods methods' => methods.Rel (Closure.Erased x w [false]) methods')
      (Eval.newMethods scope ds methods) (Eval.newMethods around.scope ds methods') := by
  induction ds generalizing methods methods' with
  | nil => exact .pure made
  | cons d rest ih =>
    simp only [Occurrence.ofMethods, fits_append] at fits
    rw [Eval.newMethods, Eval.newMethods]
    have inside : b.marks (.receiver d :: stack) = [false] ++ around.marks := by
      rw [← lies]
      rfl
    exact .bind (newClosure [false] here inside fits.1 (by simp)) fun _ _ closure =>
      ih fits.2 (made.insert _ closure)

/-- The parameters of a call are defined in a scope that is kept. -/
theorem defineAll {scope : ScopeId} {image : Image} (here : w[scope]? = some image)
    (kept : image.Kept) (names : List Name) {values values' : List Value}
    (arguments : List.Forall₂ (x.values w) values values') :
    Eval.Kin (x.run w foot) (· = ·) (Eval.defineAll scope names values)
      (Eval.defineAll image.scope names values') := by
  induction names generalizing values values' with
  | nil => cases arguments <;> exact .pure rfl
  | cons name names ih =>
    cases arguments with
    | nil => exact .pure rfl
    | cons value values =>
      rw [Eval.defineAll, Eval.defineAll]
      exact .bind (defineIn here kept name.text value) fun _ _ _ => ih values

/-- The receiver of a method is found in the scope around its body. -/
theorem callResult {c c' : Closure} (closure : c.Erased x w [] c')
    {completion completion' : Completion}
    (completions : completion.Kin (x.kinship w) completion') :
    Eval.Kin (x.run w foot) (x.values w) (Eval.callResult c completion)
      (Eval.callResult c' completion') := by
  obtain ⟨marks, stack, here, -⟩ := closure.around
  unfold Eval.callResult
  rw [← closure.isInitializer, ← closure.declaration]
  by_cases initializes : c.isInitializer = true
  · rw [if_pos initializes, if_pos initializes]
    refine .bind .get fun s s' kin => ?_
    obtain ⟨scopes, -⟩ := kin.erased
    have kept : Image.Kept ⟨c'.scope, marks⟩ := closure.receiver initializes _ here
    rcases rel_cases (scopes.binds _ _ here kept "this") with
      ⟨left, right⟩ | ⟨receiver, receiver', left, right, value⟩ <;>
      simp only [Scopes.getAt?, Scopes.ancestor?, Option.bind_some] <;> rw [left, right]
    · exact .fail _ rfl
    · exact .pure value
  · rw [if_neg initializes, if_neg initializes]
    exact .pure completions.value

/-- A method that is bound to an instance gets a scope with an image of its own. -/
theorem bindMethod (receiver : InstanceId) {method method' : Method}
    (methods : method.Rel (Closure.Erased x w [false]) method') :
    x.Follows w foot (fun w => BoundMethod.Kin (x.kinship w)) (Eval.bindMethod receiver method)
      (Eval.bindMethod receiver method') := by
  cases methods with
  | builtin method => exact .pure ⟨rfl, .builtin method⟩
  | @declared c c' closure =>
    obtain ⟨marks, stack, here, lies, fits⟩ := closure.around
    simp only [Eval.bindMethod]
    refine .bind (.newScope here) fun w' le scope scope' inside => ?_
    have kept : Image.Kept ⟨scope', false :: marks⟩ := Image.kept_false _ _
    refine .act (defineIn inside kept "this" (.inst receiver)) fun _ _ _ => .act .freshStamp ?_
    rintro stamp _ rfl
    refine .pure ⟨rfl, .declared ⟨rfl, closure.declaration, closure.isInitializer,
      ⟨_, stack, inside, lies, fits⟩, ?_⟩⟩
    intro _ image there
    cases inside.symm.trans there
    exact kept

/-- A property is found in the heap, or bound as a method in a new scope. -/
theorem getProperty (id : InstanceId) (name : String) (line : Nat) :
    x.Follows w foot x.values (Eval.getProperty id name line) (Eval.getProperty id name line) := by
  refine .act .get fun s s' kin => ?_
  dsimp only
  rcases rel_cases (kin.heap.field? id name) with
    ⟨left, right⟩ | ⟨v, v', left, right, value⟩ <;> rw [left, right]
  · have found := rel_bind (kin.heap.class? id) fun _ _ cls => cls.findMethod? name
    rcases rel_cases found with ⟨left, right⟩ | ⟨method, method', left, right, methods⟩ <;>
      rw [left, right]
    · exact .fail _ _
    · exact .map (.bindMethod id methods) fun _ _ _ bound => .callable (.bound bound)
  · exact .pure value

/-- The superclass is found without the scopes of bare blocks too, and the receiver one scope
nearer. -/
theorem superMethod {id : Id} {stack : List StaticScope} (lies : b.marks stack = foot.image.marks)
    (shifts : x.Shifts ⟨.super id, "super", stack⟩) (line : Nat) (method : Name) :
    x.Follows w foot x.values (Eval.superMethod id line method)
      (Eval.superMethod id line method) := by
  refine .act .get fun s s' kin => ?_
  obtain ⟨scopes, scope, image, here, full, direct⟩ := kin.erased
  have moves := (shifts.known id rfl).2
  unfold Erasure.Moves at moves
  rw [full, direct, scope, image]
  cases found : x.full.binding id with
  | global =>
    rw [found] at moves
    dsimp only at moves
    rw [moves]
    exact .fail _ _
  | «local» hops =>
    rw [found] at moves
    cases hops with
    | zero =>
      rw [moves.2]
      exact .fail _ _
    | succ inner =>
      have receiver := shifts.receiver id inner rfl rfl found
      rw [lies] at moves receiver
      have step : inwards foot.image.marks (inner + 1) = inwards foot.image.marks inner + 1 := by
        unfold Bareness.inwards
        rw [List.take_add_one, receiver, List.count_append]
        rfl
      rw [moves.2, step]
      dsimp only
      have classes := scopes.getAt? here moves.1 "super"
      rw [step] at classes
      rcases rel_cases classes with
        ⟨left, right⟩ | ⟨cls, cls', left, right, classes⟩ <;> rw [left, right]
      · exact .fail _ _
      rcases rel_cases (scopes.getAt? here receiver "this") with
        ⟨left, right⟩ | ⟨receiver, receiver', left, right, receivers⟩ <;> rw [left, right]
      · cases classes with
        | callable callable => cases callable <;> exact .fail _ _
        | _ => exact .fail _ _
      · cases classes with
        | callable callable =>
          cases callable with
          | «class» classes =>
            cases receivers with
            | inst id =>
              dsimp only
              rcases rel_cases (classes.findMethod? method.text) with
                ⟨left, right⟩ | ⟨found, found', left, right, methods⟩ <;> rw [left, right]
              · exact .fail _ _
              · exact .map (.bindMethod id methods) fun _ _ _ bound => .callable (.bound bound)
            | _ => exact .fail _ _
          | _ => exact .fail _ _
        | _ => exact .fail _ _

/-- The marks of the scopes around the methods of a class. -/
def marksOfClass (derived : Bool) (marks : List Bool) : List Bool :=
  if derived then false :: marks else marks

/-- The scope of a superclass is kept. -/
theorem methodScope {superclass superclass' : Option Class}
    (superclasses : Option.Rel (Class.Kin (x.kinship w)) superclass superclass') :
    x.Follows w foot
      (fun w i j => w[i]? = some ⟨j, marksOfClass superclass.isSome foot.image.marks⟩)
      (Eval.methodScope superclass) (Eval.methodScope superclass') := by
  cases superclasses with
  | none =>
    refine .of_kin (.map .get fun s s' kin => ?_)
    obtain ⟨-, scope, image, here, -⟩ := kin.erased
    rw [scope, image]
    exact here
  | some classes =>
    refine .bind .childScope fun w' le scope scope' inside => ?_
    have value := values_mono le (.callable (.class classes))
    exact .act (defineIn inside (Image.kept_false _ _) "super" value) fun _ _ _ => .pure inside

/-- A class is made of its methods, and defined where it is declared. -/
theorem declareClass (kept : foot.image.Kept) (name : Name) {superclass superclass' : Option Class}
    (superclasses : Option.Rel (Class.Kin (x.kinship w)) superclass superclass')
    {stack : List StaticScope}
    (lies : b.marks stack = marksOfClass superclass.isSome foot.image.marks)
    {methods : List FunDecl} (fits : x.Fits (Occurrence.ofMethods stack methods)) :
    x.Follows w foot (fun _ => (· = ·)) (Eval.declareClass name superclass methods)
      (Eval.declareClass name superclass' methods) := by
  unfold Eval.declareClass
  refine .act (define kept name.text .nil) fun _ _ _ => .bind (.methodScope superclasses) ?_
  intro w' le scope scope' inside
  refine .act .freshStamp ?_
  rintro stamp _ rfl
  refine .act (newMethods inside lies fits .empty) fun made made' closures =>
    .of_kin (define kept name.text ?_)
  have info : ClassInfo.Kin (x.kinship w') ⟨stamp, name.text, made⟩ ⟨stamp, name.text, made'⟩ :=
    ⟨rfl, rfl, closures⟩
  cases superclasses with
  | none => exact .callable (.class (.base info))
  | some classes => exact .callable (.class (.derived info (classes.mono (le_kinship le))))

end Erasure.Follows

/-! ## 2. Tasks

Each field of `Tracks` is about one kind of task, with what is known of its code and of the values
that it is given. -/

open Occurrence (declaring ofExpr ofExprs ofOptional ofStmt ofStmts)

/-- Some code stands in scopes of which those of bare blocks are marked. -/
def Erasure.Stands (x : Erasure b) (marks : List Bool)
    (code : List StaticScope → List Occurrence) : Prop :=
  ∃ stack, b.marks stack = marks ∧ x.Fits (code stack)

/-- Names are only declared in scopes with images of their own. -/
theorem Erasure.Shifts.kept {scopes : List StaticScope} {name : Name} {image : Image}
    (shifts : x.Shifts (declaring scopes name)) (lies : b.marks scopes = image.marks) :
    image.Kept := by
  unfold Image.Kept
  rw [← lies]
  exact shifts.outside rfl

/-- The second way to carry out tasks follows the first one. -/
structure Erasure.Tracks (x : Erasure b) (left right : (task : Task) → Eval task.Answer) :
    Prop where
  eval : ∀ {w : Images} {foot : Footing} {e : Expr},
    x.Stands foot.image.marks (ofExpr · e) →
    x.Follows w foot x.values (left (.eval e)) (right (.eval e))
  evalAll : ∀ {w : Images} {foot : Footing} {es : List Expr},
    x.Stands foot.image.marks (ofExprs · es) →
    x.Follows w foot (fun w => List.Forall₂ (x.values w)) (left (.evalAll es)) (right (.evalAll es))
  evalOptional : ∀ {w : Images} {foot : Footing} {e : Option Expr},
    x.Stands foot.image.marks (ofOptional · e) →
    x.Follows w foot x.values (left (.evalOptional e)) (right (.evalOptional e))
  call : ∀ {w : Images} {foot : Footing} {v v' : Value} {values values' : List Value} (line : Nat),
    x.values w v v' → List.Forall₂ (x.values w) values values' →
    x.Follows w foot x.values (left (.call v values line)) (right (.call v' values' line))
  apply : ∀ {w : Images} {foot : Footing} {c c' : Callable} {values values' : List Value}
    (line : Nat), c.Kin (x.kinship w) c' → List.Forall₂ (x.values w) values values' →
    x.Follows w foot x.values (left (.apply c values line)) (right (.apply c' values' line))
  applyMethod : ∀ {w : Images} {foot : Footing} {m m' : BoundMethod} {values values' : List Value}
    (line : Nat), m.Kin (x.kinship w) m' → List.Forall₂ (x.values w) values values' →
    x.Follows w foot x.values (left (.applyMethod m values line))
      (right (.applyMethod m' values' line))
  applyClosure : ∀ {w : Images} {foot : Footing} {c c' : Closure} {values values' : List Value},
    c.Erased x w [] c' → List.Forall₂ (x.values w) values values' →
    x.Follows w foot x.values (left (.applyClosure c values)) (right (.applyClosure c' values'))
  invoke : ∀ {w : Images} {foot : Footing} {v v' : Value} {values values' : List Value}
    (name : String) (line : Nat), x.values w v v' → List.Forall₂ (x.values w) values values' →
    x.Follows w foot x.values (left (.invoke v name values line))
      (right (.invoke v' name values' line))
  exec : ∀ {w : Images} {foot : Footing} {s : Stmt}, x.Stands foot.image.marks (ofStmt · s) →
    x.Follows w foot (fun w => Completion.Kin (x.kinship w)) (left (.exec s)) (right (.exec s))
  execAll : ∀ {w : Images} {foot : Footing} {body : List Stmt},
    x.Stands foot.image.marks (ofStmts · body) →
    x.Follows w foot (fun w => Completion.Kin (x.kinship w)) (left (.execAll body))
      (right (.execAll body))
  whileLoop : ∀ {w : Images} {foot : Footing} {condition : Expr} {body : Stmt},
    x.Stands foot.image.marks (ofExpr · condition) → x.Stands foot.image.marks (ofStmt · body) →
    x.Follows w foot (fun w => Completion.Kin (x.kinship w)) (left (.whileLoop condition body))
      (right (.whileLoop condition body))
  forEach : ∀ {w : Images} {foot : Footing} {c c' : Cursor} {name : Name} {body : Stmt}
    (line : Nat), c.Kin (x.kinship w) c' → x.Stands (false :: foot.image.marks) (ofStmt · body) →
    x.Follows w foot (fun w => Completion.Kin (x.kinship w)) (left (.forEach c line name body))
      (right (.forEach c' line name body))
  cursorHasItems : ∀ {w : Images} {foot : Footing} {c c' : Cursor} (line : Nat),
    c.Kin (x.kinship w) c' →
    x.Follows w foot (fun _ => (· = ·)) (left (.cursorHasItems c line))
      (right (.cursorHasItems c' line))
  cursorCurrent : ∀ {w : Images} {foot : Footing} {c c' : Cursor} (line : Nat),
    c.Kin (x.kinship w) c' →
    x.Follows w foot x.values (left (.cursorCurrent c line)) (right (.cursorCurrent c' line))
  cursorAdvance : ∀ {w : Images} {foot : Footing} {c c' : Cursor} (line : Nat),
    c.Kin (x.kinship w) c' →
    x.Follows w foot (fun _ => (· = ·)) (left (.cursorAdvance c line))
      (right (.cursorAdvance c' line))

namespace Erasure.Tracks

open Script

/-- Ways that never carry anything out. -/
theorem outOfFuel : x.Tracks (fun _ => Eval.outOfFuel) (fun _ => Eval.outOfFuel) where
  eval _ := .outOfFuel
  evalAll _ := .outOfFuel
  evalOptional _ := .outOfFuel
  call _ _ _ := .outOfFuel
  apply _ _ _ := .outOfFuel
  applyMethod _ _ _ := .outOfFuel
  applyClosure _ _ := .outOfFuel
  invoke _ _ _ _ := .outOfFuel
  exec _ := .outOfFuel
  execAll _ := .outOfFuel
  whileLoop _ _ := .outOfFuel
  forEach _ _ _ := .outOfFuel
  cursorHasItems _ _ := .outOfFuel
  cursorCurrent _ _ := .outOfFuel
  cursorAdvance _ _ := .outOfFuel

variable {left right : (task : Task) → Eval task.Answer} (ih : x.Tracks left right)

include ih

/-! ## 3. Expressions

What a task calls is carried out in the two ways, and these are in step. -/

/-- Expressions are evaluated one after the other. -/
theorem evalAll_script {es : List Expr} (stands : x.Stands foot.image.marks (ofExprs · es)) :
    x.Follows w foot (fun w => List.Forall₂ (x.values w)) ((Task.evalAll es).script.run left)
      ((Task.evalAll es).script.run right) := by
  obtain ⟨stack, lies, fits⟩ := stands
  cases es with
  | nil => exact .pure .nil
  | cons e es =>
    simp only [ofExprs, fits_append] at fits
    simp only [Task.script, run_bind, run_perform, run_pure]
    exact .bind (ih.eval ⟨stack, lies, fits.1⟩) fun _ _ _ _ value =>
      .bind (ih.evalAll ⟨stack, lies, fits.2⟩) fun _ le _ _ values =>
        .pure (.cons (values_mono le value) values)

theorem evalOptional_script {e : Option Expr}
    (stands : x.Stands foot.image.marks (ofOptional · e)) :
    x.Follows w foot x.values ((Task.evalOptional e).script.run left)
      ((Task.evalOptional e).script.run right) := by
  cases e with
  | none => exact .pure .nil
  | some e =>
    simp only [Task.script, run_perform]
    exact ih.eval stands

/-- One case for each kind of expression.  Expressions open no scope. -/
theorem eval_script {e : Expr} (stands : x.Stands foot.image.marks (ofExpr · e)) :
    x.Follows w foot x.values ((Task.eval e).script.run left) ((Task.eval e).script.run right) := by
  obtain ⟨stack, lies, fits⟩ := stands
  cases e <;> simp only [ofExpr, fits_append, fits_cons] at fits <;>
    simp only [Task.script, Task.evalScript, run_bind, run_perform, run_pure, run_doing,
      Task.run_superMethod]
  case literal value => exact .pure (.literal value)
  case grouping inner => exact ih.eval ⟨stack, lies, fits⟩
  case unary op line operand =>
    exact .bind (ih.eval ⟨stack, lies, fits⟩) fun _ _ _ _ value => .of_kin (.unary op rfl value)
  case binary op line _ _ =>
    exact .bind (ih.eval ⟨stack, lies, fits.1⟩) fun _ _ _ _ value =>
      .bind (ih.eval ⟨stack, lies, fits.2⟩) fun _ le _ _ value' =>
        .of_kin (.binary op rfl (values_mono le value) value')
  case logical op line _ _ =>
    refine .bind (ih.eval ⟨stack, lies, fits.1⟩) fun _ _ v v' value => ?_
    rw [Eval.Kin.decides_eq op value]
    split
    · exact .pure value
    · rw [run_perform, run_perform]
      exact ih.eval ⟨stack, lies, fits.2⟩
  case «variable» v => exact .of_kin (Follows.readVariable (lies ▸ (fits.1.known _ rfl).2) _ _)
  case assign target _ =>
    exact .bind (ih.eval ⟨stack, lies, fits.1⟩) fun _ _ _ _ value =>
      .act (Follows.writeVariable (lies ▸ (fits.2.1.known _ rfl).2) value) fun _ _ _ => .pure value
  case call _ _ line =>
    exact .bind (ih.eval ⟨stack, lies, fits.1⟩) fun _ _ _ _ value =>
      .bind (ih.evalAll ⟨stack, lies, fits.2⟩) fun _ le _ _ values =>
        ih.call line (values_mono le value) values
  case get _ property =>
    refine .bind (ih.eval ⟨stack, lies, fits⟩) fun _ _ v v' value => ?_
    cases value with
    | inst id =>
      simp only [Task.run_getProperty]
      exact .getProperty id _ _
    | _ =>
      simp only [run_doing]
      exact .fail _ _
  case set _ property _ =>
    refine .bind (ih.eval ⟨stack, lies, fits.2⟩) fun _ _ v v' target => ?_
    cases target with
    | inst id =>
      simp only [run_bind, run_perform, run_doing, run_pure]
      exact .bind (ih.eval ⟨stack, lies, fits.1⟩) fun _ _ _ _ value =>
        .act (.modifyHeap fun _ _ kin => kin.setField id _ value) fun _ _ _ => .pure value
    | _ =>
      simp only [run_doing]
      exact .fail _ _
  case this id line => exact .of_kin (Follows.readVariable (lies ▸ (fits.1.known _ rfl).2) _ _)
  case super id line method => exact .superMethod lies fits.1 line method
  case list line _ =>
    exact .bind (ih.evalAll ⟨stack, lies, fits⟩) fun _ _ _ _ values => .of_kin (.newList values)

/-! ## 4. Calls

What is called is kin to what is called instead. -/

section Calls

variable {values values' : List Value} (line : Nat)
  (arguments : List.Forall₂ (x.values w) values values')

include arguments

/-- The callee is a callable on both sides, or on neither. -/
theorem call_script {v v' : Value} (callee : x.values w v v') :
    x.Follows w foot x.values ((Task.call v values line).script.run left)
      ((Task.call v' values' line).script.run right) := by
  cases callee with
  | callable callable =>
    simp only [Task.script, Task.callScript]
    rw [callable.arity_eq, arguments.length_eq]
    split
    · rw [run_nested, run_nested]
      exact .nested line (ih.apply line callable arguments)
    · rw [run_doing, run_doing]
      exact .fail _ _
  | _ =>
    simp only [Task.script, Task.callScript, run_doing]
    exact .fail _ _

/-- A class makes an instance, a closure runs its body, and all else is built in. -/
theorem apply_script {c c' : Callable} (callable : c.Kin (x.kinship w) c') :
    x.Follows w foot x.values ((Task.apply c values line).script.run left)
      ((Task.apply c' values' line).script.run right) := by
  cases callable <;>
    simp only [Task.script, Task.applyScript, run_bind, run_perform, run_doing]
  case builtin function => exact .of_kin (.callFunction function arguments rfl)
  case closure closure => exact ih.applyClosure closure arguments
  case bound method => exact ih.applyMethod line method arguments
  case «class» classes =>
    refine .act (.newInstance classes none) ?_
    rintro id _ rfl
    rcases rel_cases (classes.findMethod? initializerName) with
      ⟨left, right⟩ | ⟨initializer, initializer', left, right, methods⟩ <;> rw [left, right]
    · exact .pure (.inst id)
    · simp only [run_bind, run_perform, Task.run_bindMethod, run_pure]
      exact .bind (.bindMethod id methods) fun _ le _ _ bound =>
        .bind (ih.applyMethod line bound (values_mono_all le arguments)) fun _ _ _ _ _ =>
          .pure (.inst id)

/-- A declared method is a closure, and a built-in one is the same on both sides. -/
theorem applyMethod_script {m m' : BoundMethod} (bound : m.Kin (x.kinship w) m') :
    x.Follows w foot x.values ((Task.applyMethod m values line).script.run left)
      ((Task.applyMethod m' values' line).script.run right) := by
  obtain ⟨receiver, method⟩ := m
  obtain ⟨receiver', method'⟩ := m'
  obtain ⟨rfl, methods⟩ := bound
  cases methods <;> simp only [Task.script, run_perform, run_doing]
  case builtin method => exact .of_kin (.callMethod method _ arguments rfl)
  case declared closure => exact ih.applyClosure closure arguments

/-- The scope of a call has an image of its own. -/
theorem applyClosure_script {c c' : Closure} (closure : c.Erased x w [] c') :
    x.Follows w foot x.values ((Task.applyClosure c values).script.run left)
      ((Task.applyClosure c' values').script.run right) := by
  obtain ⟨marks, stack, here, lies, fits⟩ := closure.around
  simp only [Task.script, Task.applyClosureScript, run_bind, run_opening, run_performIn, run_doing]
  rw [← closure.declaration]
  generalize body : c.declaration = d at fits ⊢
  obtain ⟨name, params, statements⟩ := d
  simp only [Occurrence.ofFunction, fits_append] at fits
  refine .bind (.newScope here) fun w' le scope scope' inside => ?_
  refine .act (Follows.defineAll inside (Image.kept_false _ _) params
    (values_mono_all le arguments)) fun _ _ _ => ?_
  have code : x.Stands (false :: marks) (ofStmts · statements) := by
    refine ⟨_, ?_, fits.2⟩
    rw [Bareness.marks_bindParams]
    exact congrArg (false :: ·) lies
  exact .bind (.within inside (ih.execAll code)) fun w'' le' _ _ completion =>
    .of_kin (Follows.callResult (closure.mono (le.trans le')) completion)

theorem invoke_script {v v' : Value} (name : String) (receiver : x.values w v v') :
    x.Follows w foot x.values ((Task.invoke v name values line).script.run left)
      ((Task.invoke v' name values' line).script.run right) := by
  cases receiver <;>
    simp only [Task.script, run_bind, run_perform, run_doing, Task.run_getProperty]
  case inst id =>
    exact .bind (.getProperty id name line) fun _ le _ _ value =>
      ih.call line value (values_mono_all le arguments)
  all_goals exact .fail _ _

end Calls

/-! ## 5. Statements

Here is the one place where the two runs do something different. -/

/-- The superclass is evaluated, and the methods are made in the scope for it. -/
theorem classDecl_script {name : Name} {superclass : Option Variable} {methods : List FunDecl}
    (stands : x.Stands foot.image.marks (ofStmt · (.classDecl name superclass methods))) :
    x.Follows w foot (fun w => Completion.Kin (x.kinship w))
      ((Task.execScript (.classDecl name superclass methods)).run left)
      ((Task.execScript (.classDecl name superclass methods)).run right) := by
  obtain ⟨stack, lies, fits⟩ := stands
  have kept : foot.image.Kept := by
    simp only [ofStmt, List.cons_append, fits_cons] at fits
    exact fits.1.kept lies
  cases superclass with
  | none =>
    simp only [ofStmt, fits_append, fits_cons] at fits
    simp only [Task.execScript, run_bind, run_pure, pure_bind, Task.run_declareClass]
    have outer := (Bareness.marks_bindName name.text true).trans lies
    exact .bind (.declareClass kept name .none outer fits.2) fun _ _ _ _ _ => .pure .normal
  | some v =>
    simp only [ofStmt, fits_append, fits_cons, Option.map_some, Option.toList_some] at fits
    simp only [Task.execScript, run_bind, run_perform, run_pure, run_doing,
      pure_bind, Task.run_declareClass]
    have read : x.Stands foot.image.marks (ofExpr · (.variable v)) :=
      ⟨_, (Bareness.marks_bindName _ _).trans lies, fits_cons.2 fits.1.2⟩
    refine .bind (ih.eval read) fun _ _ _ _ value => .act (.superclassOf rfl value)
      fun cls cls' classes => ?_
    have outer : b.marks (.superclass methods :: bindName name.text true stack) =
        false :: foot.image.marks :=
      congrArg (false :: ·) ((Bareness.marks_bindName name.text true).trans lies)
    exact .bind (.declareClass kept name (.some classes) outer fits.2) fun _ _ _ _ _ =>
      .pure .normal

/-- One case for each kind of statement.  A bare block opens a scope on the one side and none on the
other. -/
theorem exec_script {s : Stmt} (stands : x.Stands foot.image.marks (ofStmt · s)) :
    x.Follows w foot (fun w => Completion.Kin (x.kinship w)) ((Task.exec s).script.run left)
      ((b.script (.exec s)).run right) := by
  obtain ⟨stack, lies, fits⟩ := stands
  cases s
  case block body =>
    simp only [ofStmt] at fits
    simp only [Bareness.script, Task.script, Task.execScript, run_bind, run_openScope,
      run_performIn]
    cases bare : b.bare body with
    | true =>
      rw [if_pos rfl, run_perform]
      have code : x.Stands (true :: foot.image.marks) (ofStmts · body) := by
        refine ⟨_, ?_, fits⟩
        rw [← lies, ← bare]
        rfl
      exact .bareBlock fun _ _ _ => ih.execAll code
    | false =>
      rw [if_neg (by simp)]
      simp only [run_bind, run_openScope, run_performIn]
      have code : x.Stands (false :: foot.image.marks) (ofStmts · body) := by
        refine ⟨_, ?_, fits⟩
        rw [← lies, ← bare]
        rfl
      exact .bind .childScope fun _ _ _ _ inside => .within inside (ih.execAll code)
  case classDecl name superclass methods => exact ih.classDecl_script ⟨stack, lies, fits⟩
  all_goals
    simp only [ofStmt, fits_append, fits_cons] at fits
    simp only [Bareness.script, Task.script, Task.execScript, run_bind, run_perform, run_pure,
      run_doing]
  case print line _ =>
    exact .bind (ih.eval ⟨stack, lies, fits⟩) fun _ _ _ _ value =>
      .act (.printValue value rfl) fun _ _ _ => .pure .normal
  case expression _ =>
    exact .bind (ih.eval ⟨stack, lies, fits⟩) fun _ _ _ _ _ => .pure .normal
  case varDecl name initializer =>
    have code : x.Stands foot.image.marks (ofOptional · initializer) :=
      ⟨_, (Bareness.marks_bindName _ _).trans lies, fits.2⟩
    exact .bind (ih.evalOptional code) fun _ _ _ _ value =>
      .act (Follows.define (fits.1.kept lies) name.text value) fun _ _ _ => .pure .normal
  case ifElse condition branch otherwise =>
    refine .bind (ih.eval ⟨stack, lies, fits.1.1⟩) fun _ _ v v' value => ?_
    rw [value.isTruthy_eq]
    split
    · rw [run_perform, run_perform]
      exact ih.exec ⟨stack, lies, fits.1.2⟩
    · cases otherwise with
      | none => exact .pure .normal
      | some otherwise =>
        simp only [run_perform]
        exact ih.exec ⟨stack, lies, fits.2⟩
  case whileLoop condition body =>
    exact ih.whileLoop ⟨stack, lies, fits.1⟩ ⟨stack, lies, fits.2⟩
  case forEach line name iterable body =>
    refine .bind (ih.eval ⟨stack, lies, fits.1⟩) fun _ _ v v' value => ?_
    have code : x.Stands (false :: foot.image.marks) (ofStmt · body) := by
      refine ⟨_, ?_, fits.2.2⟩
      rw [Bareness.marks_bindName]
      exact congrArg (false :: ·) lies
    cases value with
    | inst id =>
      simp only [run_bind, run_perform, run_doing]
      exact .bind (ih.invoke _ line (.inst id) .nil) fun _ _ _ _ iterator =>
        .act (.cursorFor iterator) fun _ _ cursor => ih.forEach line cursor code
    | _ =>
      simp only [run_doing]
      exact .fail _ _
  case funDecl declaration =>
    refine .act (.bind .get fun t t' kin => ?_) fun _ _ closure =>
      .act (Follows.define (fits.1.kept lies) _ (.callable (.closure closure))) fun _ _ _ =>
        .pure .normal
    obtain ⟨-, scope, image, here, -⟩ := kin.erased
    rw [scope, image]
    exact Follows.newClosure [] here ((Bareness.marks_bindName _ _).trans lies) fits.2
      fun never => by cases never
  case ret line given =>
    exact .bind (ih.evalOptional ⟨stack, lies, fits⟩) fun _ _ _ _ value => .pure (.returned value)

/-- The statements of a block, in the scope of the block or in the one around. -/
theorem execAll_script {body : List Stmt} (stands : x.Stands foot.image.marks (ofStmts · body)) :
    x.Follows w foot (fun w => Completion.Kin (x.kinship w)) ((Task.execAll body).script.run left)
      ((Task.execAll body).script.run right) := by
  obtain ⟨stack, lies, fits⟩ := stands
  cases body with
  | nil => exact .pure .normal
  | cons s rest =>
    simp only [ofStmts, fits_append] at fits
    simp only [Task.script, run_bind, run_perform]
    refine .bind (ih.exec ⟨stack, lies, fits.1⟩) fun _ _ c c' completion => ?_
    cases completion with
    | normal =>
      rw [run_perform, run_perform]
      exact ih.execAll ⟨_, (Bareness.marks_after s).trans lies, fits.2⟩
    | returned value => exact .pure (.returned value)

/-- A turn of a loop and the turns behind it. -/
theorem whileLoop_script {condition : Expr} {body : Stmt}
    (tested : x.Stands foot.image.marks (ofExpr · condition))
    (repeated : x.Stands foot.image.marks (ofStmt · body)) :
    x.Follows w foot (fun w => Completion.Kin (x.kinship w))
      ((Task.whileLoop condition body).script.run left)
      ((Task.whileLoop condition body).script.run right) := by
  simp only [Task.script, run_bind, run_perform]
  refine .bind (ih.eval tested) fun _ _ v v' value => ?_
  rw [value.isTruthy_eq]
  split
  · simp only [run_bind, run_perform]
    refine .bind (ih.exec repeated) fun _ _ c c' completion => ?_
    cases completion with
    | normal =>
      rw [run_perform, run_perform]
      exact ih.whileLoop tested repeated
    | returned value => exact .pure (.returned value)
  · exact .pure .normal

/-! ## 6. `foreach` loops

The variable of the loop has a scope of its own in each turn, which is kept. -/

section Cursors

variable (line : Nat) {c c' : Cursor} (cursor : c.Kin (x.kinship w) c')

include cursor

theorem cursorHasItems_script :
    x.Follows w foot (fun _ => (· = ·)) ((Task.cursorHasItems c line).script.run left)
      ((Task.cursorHasItems c' line).script.run right) := by
  cases cursor <;> simp only [Task.script, run_bind, run_perform, run_pure, run_doing]
  case direct id => exact .of_kin (.iteratorHasItems id rfl)
  case protocol iterator =>
    exact .bind (ih.invoke _ line iterator .nil) fun _ _ _ _ value => .pure value.isTruthy_eq

theorem cursorCurrent_script :
    x.Follows w foot x.values ((Task.cursorCurrent c line).script.run left)
      ((Task.cursorCurrent c' line).script.run right) := by
  cases cursor <;> simp only [Task.script, run_perform, run_doing]
  case direct id => exact .of_kin (.iteratorCurrent id rfl)
  case protocol iterator => exact ih.invoke _ line iterator .nil

theorem cursorAdvance_script :
    x.Follows w foot (fun _ => (· = ·)) ((Task.cursorAdvance c line).script.run left)
      ((Task.cursorAdvance c' line).script.run right) := by
  cases cursor with
  | direct id =>
    unfold Task.script
    rw [run_doing, run_doing]
    exact .of_kin (.iteratorAdvance id rfl)
  | protocol iterator =>
    unfold Task.script
    rw [run_bind, run_bind, run_perform, run_perform]
    exact .bind (ih.invoke _ line iterator .nil) fun _ _ _ _ _ => .pure rfl

/-- Each turn has a scope with an image of its own. -/
theorem forEach_script {name : Name} {body : Stmt}
    (stands : x.Stands (false :: foot.image.marks) (ofStmt · body)) :
    x.Follows w foot (fun w => Completion.Kin (x.kinship w))
      ((Task.forEach c line name body).script.run left)
      ((Task.forEach c' line name body).script.run right) := by
  simp only [Task.script, Task.forEachScript, run_bind, run_perform]
  refine .bind (ih.cursorHasItems line cursor) ?_
  rintro w₁ le₁ more _ rfl
  cases more with
  | false => exact .pure .normal
  | true =>
    simp only [if_true, run_bind, run_openScope, run_perform, run_performIn, run_doing]
    have cursor₁ := cursor.mono (le_kinship le₁)
    refine .bind .childScope fun w₂ le₂ scope scope' inside => ?_
    have cursor₂ := cursor₁.mono (le_kinship le₂)
    refine .bind (ih.cursorCurrent line cursor₂) fun w₃ le₃ _ _ value => ?_
    have inside₃ := Images.mono le₃ inside
    have cursor₃ := cursor₂.mono (le_kinship le₃)
    refine .act (Follows.defineIn inside₃ (Image.kept_false _ _) name.text value) fun _ _ _ =>
      .bind (.within inside₃ (ih.exec stands)) fun w₄ le₄ d d' completion => ?_
    have cursor₄ := cursor₃.mono (le_kinship le₄)
    cases completion with
    | normal =>
      simp only [run_bind, run_perform]
      exact .bind (ih.cursorAdvance line cursor₄) fun w₅ le₅ _ _ _ =>
        ih.forEach line (cursor₄.mono (le_kinship le₅)) stands
    | returned value => exact .pure (.returned value)

end Cursors

/-! ## 7. With any fuel

By induction on the fuel, with one lemma for all kinds of tasks. -/

/-- What holds of the tasks that scripts call holds of the scripts. -/
theorem script : x.Tracks (fun task => task.script.run left)
    (fun task => (b.script task).run right) where
  eval := ih.eval_script
  evalAll := ih.evalAll_script
  evalOptional := ih.evalOptional_script
  call line callee arguments := ih.call_script line arguments callee
  apply line callable arguments := ih.apply_script line arguments callable
  applyMethod line bound arguments := ih.applyMethod_script line arguments bound
  applyClosure closure arguments := ih.applyClosure_script arguments closure
  invoke name line receiver arguments := ih.invoke_script line arguments name receiver
  exec := ih.exec_script
  execAll := ih.execAll_script
  whileLoop := ih.whileLoop_script
  forEach line cursor stands := ih.forEach_script line cursor stands
  cursorHasItems line := ih.cursorHasItems_script line
  cursorCurrent line := ih.cursorCurrent_script line
  cursorAdvance line := ih.cursorAdvance_script line

end Erasure.Tracks

namespace Erasure

/-- **Evaluation does not depend on the scopes of bare blocks**, with any fuel. -/
theorem tracks (x : Erasure b) (fuel : Nat) : x.Tracks (Task.run fuel) (b.run fuel) := by
  induction fuel with
  | zero =>
    have left : Task.run 0 = fun _ => Eval.outOfFuel := funext Task.run_zero
    have right : b.run 0 = fun _ => Eval.outOfFuel := funext fun task => by cases task <;> rfl
    rw [left, right]
    exact .outOfFuel
  | succ fuel ih =>
    have left : Task.run (fuel + 1) = fun task => task.script.run (Task.run fuel) :=
      funext (Task.run_succ fuel)
    have right : b.run (fuel + 1) = fun task => (b.script task).run (b.run fuel) := rfl
    rw [left, right]
    exact ih.script

/-- A program runs alike. -/
theorem follows_run (fuel : Nat) {program : List Stmt}
    (stands : x.Stands foot.image.marks (ofStmts · program)) :
    x.Follows w foot (fun _ => (· = ·)) (Eval.run fuel program) (b.runProgram fuel program) := by
  obtain ⟨stack, lies, fits⟩ := stands
  induction program generalizing stack w with
  | nil => exact .pure rfl
  | cons s rest ih =>
    simp only [ofStmts, fits_append] at fits
    refine .bind ((x.tracks fuel).exec ⟨stack, lies, fits.1⟩) fun _ _ c c' completion => ?_
    cases completion with
    | normal => exact ih _ ((Bareness.marks_after s).trans lies) fits.2
    | returned value => exact .pure rfl

end Erasure

end Lox
