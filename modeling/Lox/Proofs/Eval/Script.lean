/-
# What each evaluation does, step by step

The functions of `Lox.Eval` call each other and pass fuel along.  Here each of their calls is a
`Task`, and the `script` of a task lists what it does itself (`Script.act`) and which other tasks
it has done (`Script.call`), without fuel.  A new scope is made by an act of its own kind, which
says what the scope is for (`Act.opening`).

`Task.run_succ` says that carrying out the script of a task, with one unit of fuel less, is what
the function for the task does.
-/
import Lox.Eval.Basic
import Lox.Proofs.Scoping.Occurrence

namespace Lox

/-! ## 1. Tasks and scripts

A script is a tree: an act and what is done with its answer, or a call of a task in some frame and
what is done with what it answers. -/

/-- A call of one of the functions that evaluate, its fuel apart. -/
inductive Task where
  | eval (e : Expr)
  | evalAll (es : List Expr)
  | evalOptional (e : Option Expr)
  | call (callee : Value) (arguments : List Value) (line : Nat)
  | apply (callable : Callable) (arguments : List Value) (line : Nat)
  | applyMethod (method : BoundMethod) (arguments : List Value) (line : Nat)
  | applyClosure (closure : Closure) (arguments : List Value)
  | invoke (receiver : Value) (name : String) (arguments : List Value) (line : Nat)
  | exec (s : Stmt)
  | execAll (body : List Stmt)
  | whileLoop (condition : Expr) (body : Stmt)
  | forEach (cursor : Cursor) (line : Nat) (name : Name) (body : Stmt)
  | cursorHasItems (cursor : Cursor) (line : Nat)
  | cursorCurrent (cursor : Cursor) (line : Nat)
  | cursorAdvance (cursor : Cursor) (line : Nat)

namespace Task

/-- What a task gives if nothing interrupts it. -/
@[reducible] def Answer : Task → Type
  | eval _ | evalOptional _ | call .. | apply .. | applyMethod .. | applyClosure .. | invoke ..
  | cursorCurrent .. => Value
  | evalAll _ => List Value
  | exec _ | execAll _ | whileLoop .. | forEach .. => Completion
  | cursorHasItems .. => Bool
  | cursorAdvance .. => Unit

/-- Carries out a task. -/
def run (fuel : Nat) : (task : Task) → Eval task.Answer
  | eval e => Eval.eval fuel e
  | evalAll es => Eval.evalAll fuel es
  | evalOptional e => Eval.evalOptional fuel e
  | call callee arguments line => Eval.call fuel callee arguments line
  | apply callable arguments line => Eval.apply fuel callable arguments line
  | applyMethod method arguments line => Eval.applyMethod fuel method arguments line
  | applyClosure closure arguments => Eval.applyClosure fuel closure arguments
  | invoke receiver name arguments line => Eval.invoke fuel receiver name arguments line
  | exec s => Eval.exec fuel s
  | execAll body => Eval.execAll fuel body
  | whileLoop condition body => Eval.whileLoop fuel condition body
  | forEach cursor line name body => Eval.forEach fuel cursor line name body
  | cursorHasItems cursor line => Eval.cursorHasItems fuel cursor line
  | cursorCurrent cursor line => Eval.cursorCurrent fuel cursor line
  | cursorAdvance cursor line => Eval.cursorAdvance fuel cursor line

end Task

/-- What a task does itself. -/
inductive Act : Type → Type 1 where
  | plain {α : Type} (action : Eval α) : Act α
  /-- Makes a scope for a construct inside another scope. -/
  | opening (origin : ScopeOrigin) (enclosing : ScopeId) : Act ScopeId

/-- Carries out an act. -/
def Act.run {α : Type} : Act α → Eval α
  | .plain action => action
  | .opening _ enclosing => Eval.newScope enclosing

/-- How a task is done for another one. -/
inductive Frame where
  | same
  /-- In another scope. -/
  | scope (id : ScopeId)
  /-- As one more call in progress. -/
  | call (line : Nat)

namespace Frame

/-- The state in which a task begins, unless there are too many calls in progress. -/
def enter : Frame → State → Except Interrupt State
  | same, state => .ok state
  | scope id, state => .ok { state with scope := id }
  | call line, state =>
    if maxDepth ≤ state.depth then .error (.error ⟨.stackOverflow, line⟩)
    else .ok { state with depth := state.depth + 1 }

/-- The state behind a task, from the states before it and at its end. -/
def leave : Frame → (before finish : State) → State
  | same, _, finish => finish
  | scope _, before, finish => { finish with scope := before.scope }
  | call _, _, finish => { finish with depth := finish.depth - 1 }

/-- Does a task in a frame. -/
def around {α : Type} : Frame → Eval α → Eval α
  | same, action => action
  | scope id, action => Eval.within id action
  | call line, action => Eval.nested line action

end Frame

/-- What a task does, in order: acts of its own and other tasks. -/
inductive Script : Type → Type 1 where
  | done {α : Type} (value : α) : Script α
  | act {α β : Type} (action : Act β) (next : β → Script α) : Script α
  | call {α : Type} (frame : Frame) (task : Task) (next : task.Answer → Script α) : Script α

namespace Script

variable {α β : Type}

/-- One script and then another. -/
protected def bind : Script α → (α → Script β) → Script β
  | done value, f => f value
  | act action next, f => act action fun answer => (next answer).bind f
  | call frame task next, f => call frame task fun answer => (next answer).bind f

instance : Monad Script where
  pure := done
  bind := Script.bind

/-- Carries out a script, given how to carry out tasks. -/
def run (perform : (task : Task) → Eval task.Answer) : Script α → Eval α
  | done value => pure value
  | act action next => do (next (← action.run)).run perform
  | call frame task next => do (next (← frame.around (perform task))).run perform

/-- An act as a script. -/
def doing (action : Eval α) : Script α := act (.plain action) done

/-- A look at the state. -/
def seeing (view : State → α) : Script α := doing (do return view (← get))

/-- A scope for a construct inside another scope. -/
def opening (origin : ScopeOrigin) (enclosing : ScopeId) : Script ScopeId :=
  act (.opening origin enclosing) done

/-- A scope for a construct inside the current one. -/
def openScope (origin : ScopeOrigin) : Script ScopeId := do
  opening origin (← seeing State.scope)

/-- A task as a script. -/
def perform (task : Task) : Script task.Answer := call .same task done

/-- A task in another scope. -/
def performIn (scope : ScopeId) (task : Task) : Script task.Answer := call (.scope scope) task done

variable (rec : (task : Task) → Eval task.Answer)

/-- To carry out two scripts, one after the other. -/
@[simp] theorem run_bind (script : Script α) (f : α → Script β) :
    (script >>= f).run rec = script.run rec >>= fun value => (f value).run rec := by
  induction script with
  | done value => rfl
  | act action next ih =>
    change (action.run >>= fun answer => ((next answer) >>= f).run rec) = _
    simp only [ih, run, bind_assoc]
  | call frame task next ih =>
    change (frame.around (rec task) >>= fun answer => ((next answer) >>= f).run rec) = _
    simp only [ih, run, bind_assoc]

@[simp] theorem run_pure (value : α) : (pure value : Script α).run rec = pure value := rfl

/-- A script that is one act. -/
@[simp] theorem run_doing (action : Eval α) : (doing action).run rec = action :=
  bind_pure action

/-- A script that calls a task. -/
@[simp] theorem run_perform (task : Task) :
    @Script.run (no_index task.Answer) rec (perform task) = rec task :=
  bind_pure (rec task)

/-- A script that calls a task in another scope. -/
@[simp] theorem run_performIn (scope : ScopeId) (task : Task) :
    @Script.run (no_index task.Answer) rec (performIn scope task) = Eval.within scope (rec task) :=
  bind_pure (Eval.within scope (rec task))

/-- A script that calls a task, with one more call in progress. -/
theorem run_nested (line : Nat) (task : Task) :
    Script.run rec (.call (.call line) task .done) = Eval.nested line (rec task) :=
  bind_pure (Eval.nested line (rec task))

/-- A script that opens a scope. -/
@[simp] theorem run_opening (origin : ScopeOrigin) (enclosing : ScopeId) :
    (opening origin enclosing).run rec = Eval.newScope enclosing :=
  bind_pure (Eval.newScope enclosing)

@[simp] theorem run_openScope (origin : ScopeOrigin) :
    (openScope origin).run rec = Eval.childScope := by
  simp only [openScope, seeing, run_bind, run_doing, run_opening, bind_assoc, pure_bind]
  rfl

end Script

/-! ## 2. The script of every task

Each script is written like the function that it belongs to, with calls in place of the functions.
-/

namespace Task

open Script

/-- Binding a method, which opens a scope for `this` if the method is declared. -/
def bindMethod (receiver : InstanceId) : Method → Script BoundMethod
  | .builtin method => return ⟨receiver, .builtin method⟩
  | .declared closure => do
    let scope ← opening (.receiver closure.declaration) closure.scope
    doing (Eval.defineIn scope "this" (.inst receiver))
    return ⟨receiver, .declared { closure with stamp := ← doing Eval.freshStamp, scope := scope }⟩

/-- Reading a property of an instance. -/
def getProperty (id : InstanceId) (name : String) (line : Nat) : Script Value := do
  let heap ← seeing State.heap
  match heap.field? id name with
  | some value => return value
  | none =>
    match (heap.class? id).bind (·.findMethod? name) with
    | some method => return .callable (.bound (← bindMethod id method))
    | none => doing (Eval.fail (.undefinedProperty name) line)

/-- Reading a method through `super`. -/
def superMethod (node : Id) (line : Nat) (method : Name) : Script Value := do
  let state ← seeing id
  match state.resolution.binding node with
  | .local (inner + 1) =>
    match state.scopes.getAt? state.scope (inner + 1) "super",
        state.scopes.getAt? state.scope inner "this" with
    | some (.callable (.class superclass)), some (.inst receiver) =>
      match superclass.findMethod? method.text with
      | some found => return .callable (.bound (← bindMethod receiver found))
      | none => doing (Eval.fail (.undefinedProperty method.text) method.line)
    | none, _ => doing (Eval.fail (.undefinedVariable "super") line)
    | _, none => doing (Eval.fail (.undefinedVariable "this") line)
    | _, _ => doing (Eval.fail .superclassNotClass line)
  | _ => doing (Eval.fail (.undefinedVariable "super") line)

/-- The scope in which the methods of a class find `super`: one of its own if there is one. -/
def methodScope (methods : List FunDecl) : Option Class → Script ScopeId
  | none => seeing State.scope
  | some superclass => do
    let scope ← openScope (.superclass methods)
    doing (Eval.defineIn scope "super" (.callable (.class superclass)))
    return scope

/-- Declaring a class whose superclass has been evaluated. -/
def declareClass (name : Name) (superclass : Option Class) (methods : List FunDecl) :
    Script Unit := do
  doing (Eval.define name.text .nil)
  let scope ← methodScope methods superclass
  let info := ⟨← doing Eval.freshStamp, name.text, ← doing (Eval.newMethods scope methods .empty)⟩
  let cls := match superclass with
    | none => .base info
    | some superclass => .derived info superclass
  doing (Eval.define name.text (.callable (.class cls)))

/-- What evaluating an expression does. -/
def evalScript : Expr → Script Value
  | .literal value => return value.toValue
  | .grouping inner => perform (.eval inner)
  | .unary op line operand => do doing (Eval.unary op line (← perform (.eval operand)))
  | .binary op line left right => do
    let left ← perform (.eval left)
    let right ← perform (.eval right)
    doing (Eval.binary op line left right)
  | .logical op _ left right => do
    let left ← perform (.eval left)
    if Eval.decides op left then return left else perform (.eval right)
  | .variable v => doing (Eval.readVariable v.id v.name.text v.name.line)
  | .assign target value => do
    let value ← perform (.eval value)
    doing (Eval.writeVariable target value)
    return value
  | .call callee arguments line => do
    let callee ← perform (.eval callee)
    let arguments ← perform (.evalAll arguments)
    perform (.call callee arguments line)
  | .get object property => do
    match ← perform (.eval object) with
    | .inst id => getProperty id property.text property.line
    | _ => doing (Eval.fail .noProperties property.line)
  | .set object property value => do
    match ← perform (.eval object) with
    | .inst id =>
      let value ← perform (.eval value)
      doing (Eval.modifyHeap (·.setField id property.text value))
      return value
    | _ => doing (Eval.fail .noFields property.line)
  | .this id line => doing (Eval.readVariable id "this" line)
  | .super id line method => superMethod id line method
  | .list _ elements => do doing (Eval.newList (← perform (.evalAll elements)))

/-- What calling a value does. -/
def callScript (callee : Value) (arguments : List Value) (line : Nat) : Script Value :=
  match callee with
  | .callable callable =>
    if callable.arity = arguments.length then
      .call (.call line) (.apply callable arguments line) .done
    else doing (Eval.fail (.arity callable.arity arguments.length) line)
  | _ => doing (Eval.fail .notCallable line)

/-- What running a callable does. -/
def applyScript (callable : Callable) (arguments : List Value) (line : Nat) : Script Value :=
  match callable with
  | .builtin function => doing (Eval.callFunction function arguments line)
  | .closure closure => perform (.applyClosure closure arguments)
  | .bound method => perform (.applyMethod method arguments line)
  | .class cls => do
    let id ← doing (Eval.newInstance cls none)
    match cls.findMethod? initializerName with
    | some initializer =>
      let _ ← perform (.applyMethod (← bindMethod id initializer) arguments line)
      return .inst id
    | none => return .inst id

/-- What running a closure does: the scope for the call is inside the scope of the closure. -/
def applyClosureScript (closure : Closure) (arguments : List Value) : Script Value := do
  let scope ← opening (.call closure.declaration) closure.scope
  doing (Eval.defineAll scope closure.declaration.params arguments)
  let completion ← performIn scope (.execAll closure.declaration.body)
  doing (Eval.callResult closure completion)

/-- What executing a statement does. -/
def execScript : Stmt → Script Completion
  | .print line value => do
    doing (Eval.printValue (← perform (.eval value)) line)
    return .normal
  | .expression value => do
    let _ ← perform (.eval value)
    return .normal
  | .varDecl name initializer => do
    doing (Eval.define name.text (← perform (.evalOptional initializer)))
    return .normal
  | .block body => do performIn (← openScope (.block body)) (.execAll body)
  | .ifElse condition thenBranch elseBranch => do
    if (← perform (.eval condition)).isTruthy then perform (.exec thenBranch)
    else
      match elseBranch with
      | some elseBranch => perform (.exec elseBranch)
      | none => return .normal
  | .whileLoop condition body => perform (.whileLoop condition body)
  | .forEach line name iterable body => do
    match ← perform (.eval iterable) with
    | .inst id =>
      let iterator ← perform (.invoke (.inst id) "iterate" [] line)
      let cursor ← doing (Eval.cursorFor iterator)
      perform (.forEach cursor line name body)
    | _ => doing (Eval.fail .notIterable line)
  | .funDecl declaration => do
    let closure ← doing (do Eval.newClosure declaration (← get).scope false)
    doing (Eval.define declaration.name.text (.callable (.closure closure)))
    return .normal
  | .ret _ value => return .returned (← perform (.evalOptional value))
  | .classDecl name superclass methods => do
    let superclass ← match superclass with
      | none => pure none
      | some v => do
        let value ← perform (.eval (.variable v))
        let cls ← doing (Eval.superclassOf v.name value)
        pure (some cls)
    declareClass name superclass methods
    return .normal

/-- What a turn of a `foreach` loop does, and then the loop. -/
def forEachScript (cursor : Cursor) (line : Nat) (name : Name) (body : Stmt) :
    Script Completion := do
  if ← perform (.cursorHasItems cursor line) then
    let scope ← openScope (.iteration name body)
    doing (Eval.defineIn scope name.text (← perform (.cursorCurrent cursor line)))
    match ← performIn scope (.exec body) with
    | .normal =>
      perform (.cursorAdvance cursor line)
      perform (.forEach cursor line name body)
    | .returned value => return .returned value
  else return .normal

/-- What a task does. -/
def script : (task : Task) → Script task.Answer
  | eval e => evalScript e
  | evalAll [] => return []
  | evalAll (e :: es) => do
    let value ← perform (.eval e)
    return value :: (← perform (.evalAll es))
  | evalOptional none => return .nil
  | evalOptional (some e) => perform (.eval e)
  | call callee arguments line => callScript callee arguments line
  | apply callable arguments line => applyScript callable arguments line
  | applyMethod method arguments line =>
    match method.method with
    | .builtin builtin => doing (Eval.callMethod builtin method.receiver arguments line)
    | .declared closure => perform (.applyClosure closure arguments)
  | applyClosure closure arguments => applyClosureScript closure arguments
  | invoke (.inst id) name arguments line => do
    perform (.call (← getProperty id name line) arguments line)
  | invoke _ _ _ line => doing (Eval.fail .noProperties line)
  | exec s => execScript s
  | execAll [] => return .normal
  | execAll (s :: rest) => do
    match ← perform (.exec s) with
    | .normal => perform (.execAll rest)
    | .returned value => return .returned value
  | whileLoop condition body => do
    if (← perform (.eval condition)).isTruthy then
      match ← perform (.exec body) with
      | .normal => perform (.whileLoop condition body)
      | .returned value => return .returned value
    else return .normal
  | forEach cursor line name body => forEachScript cursor line name body
  | cursorHasItems (.direct id) line => doing (Eval.iteratorHasItems id line)
  | cursorHasItems (.protocol iterator) line =>
    return (← perform (.invoke iterator "hasItems" [] line)).isTruthy
  | cursorCurrent (.direct id) line => doing (Eval.iteratorCurrent id line)
  | cursorCurrent (.protocol iterator) line => perform (.invoke iterator "get" [] line)
  | cursorAdvance (.direct id) line => doing (Eval.iteratorAdvance id line)
  | cursorAdvance (.protocol iterator) line => do
    let _ ← perform (.invoke iterator "move" [] line)

variable (rec : (task : Task) → Eval task.Answer)

@[simp] theorem run_bindMethod (receiver : InstanceId) (method : Method) :
    (bindMethod receiver method).run rec = Eval.bindMethod receiver method := by
  cases method <;> simp [bindMethod, Eval.bindMethod]

/-- What has been a function of the evaluator is one as a script. -/
@[simp] theorem run_getProperty (id : InstanceId) (name : String) (line : Nat) :
    (getProperty id name line).run rec = Eval.getProperty id name line := by
  simp only [getProperty, Eval.getProperty, seeing, run_bind, run_doing, bind_assoc, pure_bind]
  refine bind_congr fun state => ?_
  cases state.heap.field? id name with
  | some value => rfl
  | none =>
    cases (state.heap.class? id).bind (·.findMethod? name) <;> simp

@[simp] theorem run_superMethod (node : Id) (line : Nat) (method : Name) :
    (superMethod node line method).run rec = Eval.superMethod node line method := by
  simp only [superMethod, Eval.superMethod, seeing, run_bind, run_doing, bind_assoc, pure_bind, id]
  refine bind_congr fun state => ?_
  repeat' split
  all_goals simp_all

@[simp] theorem run_declareClass (name : Name) (superclass : Option Class)
    (methods : List FunDecl) :
    (declareClass name superclass methods).run rec =
      Eval.declareClass name superclass methods := by
  cases superclass <;> simp [declareClass, Eval.declareClass, methodScope, Eval.methodScope, seeing]

/-- The function for expressions does what their scripts say. -/
theorem run_evalScript (fuel : Nat) (e : Expr) :
    (evalScript e).run (run fuel) = Eval.eval (fuel + 1) e := by
  cases e with
  | logical op line left right =>
    simp only [evalScript, Eval.eval, run_bind, run_perform, run]
    refine bind_congr fun value => ?_
    split <;> simp [run]
  | get object property | set object property value =>
    simp only [evalScript, Eval.eval, run_bind, run_perform, run]
    refine bind_congr fun value => ?_
    split <;> simp [run]
  | _ => simp [evalScript, Eval.eval, run]

/-- So does the one for statements. -/
theorem run_execScript (fuel : Nat) (s : Stmt) :
    (execScript s).run (run fuel) = Eval.exec (fuel + 1) s := by
  cases s with
  | ifElse condition thenBranch elseBranch =>
    cases elseBranch <;>
    · simp only [execScript, Eval.exec, run_bind, run_perform, run]
      refine bind_congr fun value => ?_
      split <;> simp [run]
  | forEach line name iterable body =>
    simp only [execScript, Eval.exec, run_bind, run_perform, run]
    refine bind_congr fun value => ?_
    split <;> simp [run]
  | classDecl name superclass methods =>
    cases superclass <;> simp [execScript, Eval.exec, run]
  | _ => simp [execScript, Eval.exec, run]

/-- So does the one for a turn of a loop. -/
theorem run_forEachScript (fuel : Nat) (cursor : Cursor) (line : Nat) (name : Name)
    (body : Stmt) :
    (forEachScript cursor line name body).run (run fuel) =
      Eval.forEach (fuel + 1) cursor line name body := by
  simp only [forEachScript, Eval.forEach, run_bind, run_perform, run]
  refine bind_congr fun more => ?_
  cases more with
  | false => rfl
  | true =>
    simp only [if_true, run_bind, run_openScope, run_performIn, run_perform, run_doing, run]
    refine bind_congr fun scope => bind_congr fun value => bind_congr fun _ =>
      bind_congr fun completion => ?_
    cases completion <;> simp [run]

/-- **Scripts say what is done.**  With one unit of fuel for itself, a task is its script, whose
tasks have the rest of the fuel. -/
theorem run_succ (fuel : Nat) (task : Task) :
    task.run (fuel + 1) = task.script.run (run fuel) := by
  cases task with
  | eval e => exact (run_evalScript fuel e).symm
  | exec s => exact (run_execScript fuel s).symm
  | forEach cursor line name body => exact (run_forEachScript fuel cursor line name body).symm
  | evalAll es => cases es <;> simp [script, Eval.evalAll, run]
  | evalOptional e => cases e <;> simp [script, Eval.evalOptional, run]
  | call callee arguments line =>
    cases callee with
    | callable callable =>
      simp only [script, callScript, Eval.call, run]
      split
      · exact (bind_pure _).symm
      · exact (run_doing (run fuel) _).symm
    | _ => simp [script, callScript, Eval.call, run]
  | apply callable arguments line =>
    cases callable with
    | «class» cls =>
      simp only [script, applyScript, Eval.apply, run_bind, run_doing, run]
      refine bind_congr fun id => ?_
      cases cls.findMethod? initializerName <;> simp [run]
    | _ => simp [script, applyScript, Eval.apply, run]
  | applyMethod method arguments line =>
    obtain ⟨receiver, method⟩ := method
    cases method <;> simp [script, Eval.applyMethod, run]
  | applyClosure closure arguments =>
    simp [script, applyClosureScript, Eval.applyClosure, run]
  | invoke receiver name arguments line =>
    cases receiver <;> simp [script, Eval.invoke, run]
  | execAll body =>
    cases body with
    | nil => simp [script, Eval.execAll, run]
    | cons s rest =>
      simp only [script, Eval.execAll, run_bind, run_perform, run]
      refine bind_congr fun completion => ?_
      cases completion <;> simp [run]
  | whileLoop condition body =>
    simp only [script, Eval.whileLoop, run_bind, run_perform, run]
    refine bind_congr fun value => ?_
    split
    · simp only [run_bind, run_perform, run]
      refine bind_congr fun completion => ?_
      cases completion <;> simp [run]
    · rfl
  | cursorHasItems cursor line => cases cursor <;> simp [script, Eval.cursorHasItems, run]
  | cursorCurrent cursor line => cases cursor <;> simp [script, Eval.cursorCurrent, run]
  | cursorAdvance cursor line => cases cursor <;> simp [script, Eval.cursorAdvance, run]

end Task

end Lox
