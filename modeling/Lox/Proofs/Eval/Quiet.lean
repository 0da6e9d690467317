/-
# What scripts do besides calling each other

Two things can be seen in the scripts alone, whatever the states are.

* Expressions and calls execute no statements themselves, but only by running a closure; and
  where a statement executes a part of it that ends with a `return`, it ends so as well, at once
  and with the same value (`Script.Quiet`, `Script.Forwards`).
* The acts of scripts do not look for payloads (`Eval.Provided`).  Only the built-in methods do,
  and the loops that step an iterator.

`Task.quiet_script` and `Task.forwards_script` go through the constructs for both.
-/
import Lox.Proofs.Eval.Restore

namespace Lox

/-! ## 1. Acts that do not look for payloads

The cause `uninitialized` is raised where a payload is looked for and nowhere else.  An act is
`Provided` if it cannot raise it. -/

/-- A payload was looked for and not found. -/
def Interrupt.Uninitialized (interrupt : Interrupt) : Prop :=
  ∃ line, interrupt = .error ⟨.builtin .uninitialized, line⟩

namespace Eval

variable {α β : Type}

/-- An act does not fail for want of a payload. -/
def Provided (x : Eval α) : Prop :=
  ∀ s interrupt s', x s = .error interrupt s' → ¬ interrupt.Uninitialized

namespace Provided

/-- Some acts do not fail at all. -/
theorem total {x : Eval α} (h : ∀ s, ∃ v s', x s = .ok v s') : Provided x := by
  intro s interrupt s' failed
  obtain ⟨v, t, ok⟩ := h s
  cases ok.symm.trans failed

theorem pure (value : α) : Provided (Pure.pure value) := .total fun s => ⟨value, s, rfl⟩

theorem get : Provided MonadState.get := .total fun s => ⟨s, s, rfl⟩

theorem define (name : String) (value : Value) : Provided (Eval.define name value) :=
  .total fun _ => ⟨(), _, rfl⟩

theorem defineIn (scope : ScopeId) (name : String) (value : Value) :
    Provided (Eval.defineIn scope name value) :=
  .total fun _ => ⟨(), _, rfl⟩

theorem freshStamp : Provided Eval.freshStamp := .total fun _ => ⟨_, _, rfl⟩

/-- Any other interrupt may be raised. -/
theorem throw {interrupt : Interrupt} (h : ¬ interrupt.Uninitialized) :
    Provided (MonadExcept.throw interrupt : Eval α) := by
  intro s interrupt' s' failed
  cases failed
  exact h

theorem fail {cause : RuntimeCause} (h : cause ≠ .builtin .uninitialized) (line : Nat) :
    Provided (Eval.fail cause line : Eval α) :=
  .throw fun ⟨_, same⟩ => h (congrArg RuntimeError.cause (Interrupt.error.inj same))

/-- Any other cause may be given. -/
theorem failBuiltin {cause : BuiltinCause} (h : cause ≠ .uninitialized) (line : Nat) :
    Provided (Eval.failBuiltin cause line : Eval α) :=
  .fail (fun same => h (RuntimeCause.builtin.inj same)) line

/-- If neither act looks for a payload, both together do not. -/
theorem bind {x : Eval α} {f : α → Eval β} (hx : Provided x) (hf : ∀ v, Provided (f v)) :
    Provided (x >>= f) := by
  intro s interrupt s' failed
  cases hs : x s with
  | ok v t => exact hf v t interrupt s' ((bind_of_ok hs f).symm.trans failed)
  | error interrupt' t =>
    cases (bind_of_error hs f).symm.trans failed
    exact hx s _ _ hs

theorem ite {p : Prop} [Decidable p] {x y : Eval α} (hx : Provided x) (hy : Provided y) :
    Provided (if p then x else y) := by
  split
  · exact hx
  · exact hy

theorem unary (op : UnaryOp) (line : Nat) (operand : Value) :
    Provided (Eval.unary op line operand) := by
  unfold Eval.unary
  split
  · exact .pure _
  · exact .fail (by nofun) _
  · exact .pure _

theorem arithmetic (op : BinaryOp) (line : Nat) (x y : Float) :
    Provided (Eval.arithmetic op line x y) := by
  cases op with
  | divide => exact .ite (.fail (by nofun) _) (.pure _)
  | _ => exact .pure _

theorem binary (op : BinaryOp) (line : Nat) (left right : Value) :
    Provided (Eval.binary op line left right) := by
  unfold Eval.binary
  split
  · exact .pure _
  · exact .pure _
  · split
    · exact .pure _
    · exact .pure _
    · exact .fail (by nofun) _
  · split
    · exact .arithmetic _ _ _ _
    · exact .fail (by nofun) _

/-- That a variable is undefined is another cause. -/
theorem readVariable (id : Id) (name : String) (line : Nat) :
    Provided (Eval.readVariable id name line) := by
  refine .bind .get fun state => ?_
  dsimp only
  split
  · exact .pure _
  · exact .fail (by nofun) _

theorem writeVariable (target : Variable) (value : Value) :
    Provided (Eval.writeVariable target value) := by
  intro s interrupt s' failed
  unfold Eval.writeVariable at failed
  dsimp only at failed
  split at failed
  · cases failed
  · cases failed
    rintro ⟨line, ⟨⟩⟩

/-- That the output is closed is another cause. -/
theorem printValue (value : Value) (line : Nat) : Provided (Eval.printValue value line) := by
  intro s interrupt s' failed
  unfold Eval.printValue at failed
  dsimp only at failed
  split at failed
  · cases failed
  · cases failed
    rintro ⟨line, ⟨⟩⟩

/-- By induction on the names and the values. -/
theorem defineAll (scope : ScopeId) (names : List Name) (values : List Value) :
    Provided (Eval.defineAll scope names values) := by
  induction names generalizing values with
  | nil => exact .pure _
  | cons name rest ih =>
    cases values with
    | nil => exact .pure _
    | cons value values => exact .bind (.defineIn _ _ _) fun _ => ih values

/-- By induction on the declarations. -/
theorem newMethods (scope : ScopeId) (declarations : List FunDecl) (methods : Bindings Closure) :
    Provided (Eval.newMethods scope declarations methods) := by
  induction declarations generalizing methods with
  | nil => exact .pure _
  | cons declaration rest ih => exact .bind (.total fun s => ⟨_, _, rfl⟩) fun _ => ih _

theorem superclassOf (name : Name) (value : Value) : Provided (Eval.superclassOf name value) := by
  unfold Eval.superclassOf
  split
  · exact .pure _
  · exact .fail (by nofun) _

theorem cursorFor (iterator : Value) : Provided (Eval.cursorFor iterator) := by
  unfold Eval.cursorFor
  split
  · exact .bind .get fun _ => .ite (.pure _) (.pure _)
  · exact .pure _

theorem callResult (closure : Closure) (completion : Completion) :
    Provided (Eval.callResult closure completion) := by
  refine .ite (.bind .get fun s => ?_) (.pure _)
  split
  · exact .pure _
  · exact .fail (by nofun) _

theorem numberArgument (function : BuiltinFunction) (line : Nat) (value : Value) :
    Provided (Eval.numberArgument function line value) := by
  unfold Eval.numberArgument
  split
  · exact .pure _
  · exact .failBuiltin (by nofun) _

theorem inputLine (line : Nat) : Provided (Eval.inputLine line) := by
  refine .bind (.total fun s => ⟨_, _, rfl⟩) fun found => ?_
  split
  · exact .pure _
  · exact .pure _
  · exact .failBuiltin (by nofun) _
  · exact .throw (by nofun)

theorem toText (line : Nat) (value : Value) : Provided (Eval.toText line value) := by
  unfold Eval.toText
  split
  · exact .pure _
  · exact .pure _
  · exact .failBuiltin (by nofun) _

theorem toNumber (line : Nat) (value : Value) : Provided (Eval.toNumber line value) := by
  unfold Eval.toNumber
  split
  · exact .pure _
  · split
    · exact .pure _
    · exact .failBuiltin (by nofun) _
  · exact .failBuiltin (by nofun) _

/-- Built-in functions have no receiver, so there is no payload to look for. -/
theorem callFunction (function : BuiltinFunction) (arguments : List Value) (line : Nat) :
    Provided (Eval.callFunction function arguments line) := by
  unfold Eval.callFunction
  split
  · exact .bind (.total fun s => ⟨_, _, rfl⟩) fun _ => .pure _
  · exact .inputLine line
  · exact .toText _ _
  · exact .toNumber _ _
  · exact .bind (.numberArgument _ _ _) fun _ => .pure _
  · exact .bind (.numberArgument _ _ _) fun _ => .pure _
  · exact .bind (.numberArgument _ _ _) fun _ => .pure _
  · exact .bind (.numberArgument _ _ _) fun _ => .pure _
  · exact .bind (.numberArgument _ _ _) fun _ => .pure _
  · exact .bind (.numberArgument _ _ _) fun _ => .ite (.failBuiltin (by nofun) _) (.pure _)
  · exact .throw (by nofun)

end Provided

end Eval

/-! ## 2. Statements and their parts

Where a statement stands in another one, with no function in between, a `return` of the inner one is
one of the outer one. -/

/-- A statement stands in another one, with no function declared in between. -/
inductive Stmt.Contains : Stmt → Stmt → Prop where
  | self (s : Stmt) : Contains s s
  | block {body : List Stmt} {first s : Stmt} (mem : first ∈ body) (h : Contains first s) :
      Contains (.block body) s
  | thenBranch {condition : Expr} {thenBranch s : Stmt} {elseBranch : Option Stmt}
      (h : Contains thenBranch s) : Contains (.ifElse condition thenBranch elseBranch) s
  | elseBranch {condition : Expr} {thenBranch elseBranch s : Stmt} (h : Contains elseBranch s) :
      Contains (.ifElse condition thenBranch (some elseBranch)) s
  | whileLoop {condition : Expr} {body s : Stmt} (h : Contains body s) :
      Contains (.whileLoop condition body) s
  | forEach {line : Nat} {name : Name} {iterable : Expr} {body s : Stmt} (h : Contains body s) :
      Contains (.forEach line name iterable body) s

namespace Task

/-- How a task says that it has come to a `return`, if it is one that executes statements. -/
def returned? : (task : Task) → Option (Value → task.Answer)
  | exec _ | execAll _ | whileLoop .. | forEach .. => some Completion.returned
  | eval _ | evalAll _ | evalOptional _ | call .. | apply .. | applyMethod .. | applyClosure ..
  | invoke .. | cursorHasItems .. | cursorCurrent .. | cursorAdvance .. => none

/-- A statement stands in what a task executes. -/
def Holds (st : Stmt) : Task → Prop
  | exec whole => whole.Contains st
  | execAll body => ∃ first ∈ body, first.Contains st
  | whileLoop _ body | forEach _ _ _ body => body.Contains st
  | _ => False

/-- Whatever stands in one task stands in another one too. -/
abbrev PartOf (outer inner : Task) : Prop := ∀ st, inner.Holds st → outer.Holds st

/-- A task that looks for a payload. -/
def LooksForPayload : Task → Prop
  | applyMethod ⟨_, .builtin _⟩ .. | cursorHasItems (.direct _) _ | cursorCurrent (.direct _) _
  | cursorAdvance (.direct _) _ => True
  | _ => False

end Task

/-! ## 3. Scripts

`Quiet` forbids the execution of statements, and `Forwards` allows it for parts.  Each has a lemma
for every way in which a script is put together. -/

/-- A frame of a statement. -/
def Frame.IsInner : Frame → Prop
  | same | scope _ => True
  | call _ => False

namespace Script

/-- No statement is executed in the script itself, and no payload looked for. -/
def Quiet {α : Type} : Script α → Prop
  | .done _ => True
  | .act (.plain action) next => action.Provided ∧ ∀ answer, (next answer).Quiet
  | .act (.opening _ _) next => ∀ answer, (next answer).Quiet
  | .call _ task next => task.returned? = none ∧ ∀ answer, (next answer).Quiet

/-- The statements that are executed are parts, and the script ends with the `return` of each; no
payload is looked for. -/
def Forwards {α : Type} (part : Task → Prop) (how : Value → α) : Script α → Prop
  | .done _ => True
  | .act (.plain action) next => action.Provided ∧ ∀ answer, (next answer).Forwards part how
  | .act (.opening _ _) next => ∀ answer, (next answer).Forwards part how
  | .call frame task next =>
    (∀ returned, task.returned? = some returned →
      part task ∧ frame.IsInner ∧ ∀ v, next (returned v) = .done (how v)) ∧
    ∀ answer, (next answer).Forwards part how

variable {α β : Type} {part : Task → Prop} {how : Value → β}

/-- Quiet scripts follow each other. -/
theorem quiet_bind {script : Script α} (h : script.Quiet) {f : α → Script β}
    (hf : ∀ v, (f v).Quiet) : (script >>= f).Quiet := by
  induction script with
  | done value => exact hf value
  | act action next ih =>
    cases action with
    | plain action => exact ⟨h.1, fun answer => ih answer (h.2 answer)⟩
    | opening origin enclosing => exact fun answer => ih answer (h answer)
  | call frame task next ih => exact ⟨h.1, fun answer => ih answer (h.2 answer)⟩

theorem quiet_pure (value : α) : (pure value : Script α).Quiet := trivial

theorem quiet_doing {action : Eval α} (h : action.Provided) : (doing action).Quiet :=
  ⟨h, fun _ => trivial⟩

theorem quiet_fail {cause : RuntimeCause} (h : cause ≠ .builtin .uninitialized) (line : Nat) :
    (doing (Eval.fail cause line : Eval α)).Quiet :=
  quiet_doing (.fail h line)

/-- Looking at the state executes nothing. -/
theorem quiet_seeing (view : State → α) : (seeing view).Quiet :=
  quiet_doing (.total fun s => ⟨view s, s, rfl⟩)

theorem quiet_opening (origin : ScopeOrigin) (enclosing : ScopeId) :
    (opening origin enclosing).Quiet :=
  fun _ => trivial

theorem quiet_openScope (origin : ScopeOrigin) : (openScope origin).Quiet :=
  quiet_bind (quiet_seeing _) fun _ => quiet_opening _ _

/-- Calling a task that executes no statements is quiet. -/
theorem quiet_perform {task : Task} (other : task.returned? = none) : (perform task).Quiet :=
  ⟨other, fun _ => trivial⟩

/-- What is quiet may stand in front of what forwards a `return`. -/
theorem forwards_bind {script : Script α} (h : script.Quiet) {f : α → Script β}
    (hf : ∀ v, (f v).Forwards part how) : (script >>= f).Forwards part how := by
  induction script with
  | done value => exact hf value
  | act action next ih =>
    cases action with
    | plain action => exact ⟨h.1, fun answer => ih answer (h.2 answer)⟩
    | opening origin enclosing => exact fun answer => ih answer (h answer)
  | call frame task next ih =>
    refine ⟨fun returned statement => ?_, fun answer => ih answer (h.2 answer)⟩
    cases h.1.symm.trans statement

theorem forwards_pure (value : β) : (pure value : Script β).Forwards part how := trivial

/-- A failure is no `return`. -/
theorem forwards_fail {cause : RuntimeCause} (h : cause ≠ .builtin .uninitialized) (line : Nat) :
    (doing (Eval.fail cause line : Eval β)).Forwards part how :=
  ⟨.fail h line, fun _ => trivial⟩

/-- A part is executed, and then more unless it returns. -/
theorem forwards_call (frame : Frame) (inner : frame.IsInner) {task : Task} (hpart : part task)
    {next : task.Answer → Script β}
    (done : ∀ returned, task.returned? = some returned → ∀ v, next (returned v) = .done (how v))
    (h : ∀ answer, (next answer).Forwards part how) : (call frame task next).Forwards part how :=
  ⟨fun returned statement => ⟨hpart, inner, done returned statement⟩, h⟩

/-- A part is executed, and nothing more. -/
theorem forwards_performs (frame : Frame) (inner : frame.IsInner) {task : Task} (hpart : part task)
    {how : Value → task.Answer} (statement : task.returned? = some how) :
    (call frame task .done).Forwards part how := by
  refine forwards_call frame inner hpart (fun returned h v => ?_) fun _ => trivial
  cases h.symm.trans statement
  rfl

end Script

namespace Task

open Script

/-! ## 4. Expressions and calls

All of these are quiet.  A closure is what applying a callable ends in, and its body is another
task. -/

/-- Binding a method opens a scope, and runs nothing. -/
theorem quiet_bindMethod (receiver : InstanceId) (method : Method) :
    (bindMethod receiver method).Quiet := by
  cases method with
  | builtin method => exact quiet_pure _
  | declared closure =>
    exact quiet_bind (quiet_opening _ _) fun _ => quiet_bind (quiet_doing (.defineIn _ _ _))
      fun _ => quiet_bind (quiet_doing .freshStamp) fun _ => quiet_pure _

theorem quiet_bound (receiver : InstanceId) (method : Method) :
    (do return .callable (.bound (← bindMethod receiver method)) : Script Value).Quiet :=
  quiet_bind (quiet_bindMethod _ _) fun _ => quiet_pure _

theorem quiet_getProperty (id : InstanceId) (name : String) (line : Nat) :
    (getProperty id name line).Quiet := by
  refine quiet_bind (quiet_seeing _) fun _ => ?_
  split
  · exact quiet_pure _
  · split
    · exact quiet_bound _ _
    · exact quiet_fail (by simp) _

/-- The superclass and the method are looked up. -/
theorem quiet_superMethod (node : Id) (line : Nat) (method : Name) :
    (superMethod node line method).Quiet := by
  refine quiet_bind (quiet_seeing _) fun _ => ?_
  split
  · split
    · split
      · exact quiet_bound _ _
      · exact quiet_fail (by simp) _
    all_goals exact quiet_fail (by simp) _
  · exact quiet_fail (by simp) _

/-- The methods of a class are made into closures, and none of them runs. -/
theorem quiet_declareClass (name : Name) (superclass : Option Class) (methods : List FunDecl) :
    (declareClass name superclass methods).Quiet := by
  refine quiet_bind (quiet_doing (.define _ _)) fun _ => ?_
  refine quiet_bind ?_ fun _ => quiet_bind (quiet_doing .freshStamp) fun _ =>
    quiet_bind (quiet_doing (.newMethods _ _ _)) fun _ => quiet_doing (.define _ _)
  cases superclass with
  | none => exact quiet_seeing _
  | some cls =>
    exact quiet_bind (quiet_openScope _) fun _ => quiet_bind (quiet_doing (.defineIn _ _ _))
      fun _ => quiet_pure _

/-- Expressions call other expressions and apply callables.  Statements are executed by what a
callable runs. -/
theorem quiet_evalScript (e : Expr) : (evalScript e).Quiet := by
  cases e with
  | literal value => exact quiet_pure _
  | grouping inner => exact quiet_perform rfl
  | unary op line operand =>
    exact quiet_bind (quiet_perform rfl) fun _ => quiet_doing (.unary _ _ _)
  | binary op line left right =>
    exact quiet_bind (quiet_perform rfl) fun _ => quiet_bind (quiet_perform rfl)
      fun _ => quiet_doing (.binary _ _ _ _)
  | logical op line left right =>
    refine quiet_bind (quiet_perform rfl) fun _ => ?_
    split
    · exact quiet_pure _
    · exact quiet_perform rfl
  | «variable» v => exact quiet_doing (.readVariable _ _ _)
  | assign target value =>
    exact quiet_bind (quiet_perform rfl) fun _ => quiet_bind (quiet_doing (.writeVariable _ _))
      fun _ => quiet_pure _
  | call callee arguments line =>
    exact quiet_bind (quiet_perform rfl) fun _ => quiet_bind (quiet_perform rfl)
      fun _ => quiet_perform rfl
  | get object property =>
    refine quiet_bind (quiet_perform rfl) fun _ => ?_
    split
    · exact quiet_getProperty _ _ _
    · exact quiet_fail (by nofun) _
  | set object property value =>
    refine quiet_bind (quiet_perform rfl) fun _ => ?_
    split
    · exact quiet_bind (quiet_perform rfl) fun _ =>
        quiet_bind (quiet_doing (.total fun _ => ⟨(), _, rfl⟩)) fun _ => quiet_pure _
    · exact quiet_fail (by nofun) _
  | this id line => exact quiet_doing (.readVariable _ _ _)
  | super id line method => exact quiet_superMethod _ _ _
  | list line elements =>
    exact quiet_bind (quiet_perform rfl) fun _ => quiet_doing (.total fun _ => ⟨_, _, rfl⟩)

/-- **Expressions and calls execute no statements**, except that a closure is run. -/
theorem quiet_script {task : Task} (other : task.returned? = none)
    (ordinary : ∀ closure arguments, task ≠ .applyClosure closure arguments)
    (payload : ¬ task.LooksForPayload) : task.script.Quiet := by
  cases task with
  | exec _ | execAll _ | whileLoop _ _ | forEach _ _ _ _ => cases other
  | applyClosure closure arguments => exact absurd rfl (ordinary closure arguments)
  | eval e => exact quiet_evalScript e
  | evalAll es =>
    cases es with
    | nil => exact quiet_pure _
    | cons e es =>
      exact quiet_bind (quiet_perform rfl) fun _ => quiet_bind (quiet_perform rfl)
        fun _ => quiet_pure _
  | evalOptional e =>
    cases e with
    | none => exact quiet_pure _
    | some e => exact quiet_perform rfl
  | call callee arguments line =>
    change (callScript callee arguments line).Quiet
    unfold callScript
    split
    · split
      · exact ⟨rfl, fun _ => trivial⟩
      · exact quiet_fail (by simp) _
    · exact quiet_fail (by simp) _
  | apply callable arguments line =>
    cases callable with
    | builtin function => exact quiet_doing (.callFunction _ _ _)
    | closure closure => exact quiet_perform rfl
    | bound method => exact quiet_perform rfl
    | «class» cls =>
      refine quiet_bind (quiet_doing (.total fun _ => ⟨_, _, rfl⟩)) fun _ => ?_
      split
      · exact quiet_bind (quiet_bindMethod _ _) fun _ => quiet_bind (quiet_perform rfl)
          fun _ => quiet_pure _
      · exact quiet_pure _
  | applyMethod method arguments line =>
    obtain ⟨receiver, method⟩ := method
    cases method with
    | builtin method => exact absurd trivial payload
    | declared closure => exact quiet_perform rfl
  | invoke receiver name arguments line =>
    cases receiver with
    | inst id => exact quiet_bind (quiet_getProperty _ _ _) fun _ => quiet_perform rfl
    | _ => exact quiet_fail (by simp) _
  | cursorHasItems cursor line | cursorAdvance cursor line =>
    cases cursor with
    | direct id => exact absurd trivial payload
    | protocol iterator => exact quiet_bind (quiet_perform rfl) fun _ => quiet_pure _
  | cursorCurrent cursor line =>
    cases cursor with
    | direct id => exact absurd trivial payload
    | protocol iterator => exact quiet_perform rfl

/-! ## 5. Statements

Only a statement with parts executes statements, and it hands on what they end with. -/

/-- How a statement returns. -/
abbrev ForwardsParts (task : Task) (script : Script Completion) : Prop :=
  script.Forwards (PartOf task) .returned

/-- Statements with parts end with the `return` of a part at once. -/
theorem forwards_execScript (st : Stmt) : ForwardsParts (.exec st) (execScript st) := by
  cases st with
  | print line value =>
    exact forwards_bind (quiet_perform rfl) fun _ =>
      forwards_bind (quiet_doing (.printValue _ _)) fun _ => forwards_pure _
  | expression value => exact forwards_bind (quiet_perform rfl) fun _ => forwards_pure _
  | varDecl name initializer =>
    exact forwards_bind (quiet_perform rfl) fun _ =>
      forwards_bind (quiet_doing (.define _ _)) fun _ => forwards_pure _
  | block body =>
    refine forwards_bind (quiet_openScope _) fun scope =>
      forwards_performs (.scope scope) trivial ?_ rfl
    rintro st ⟨first, mem, inside⟩
    exact .block mem inside
  | ifElse condition thenBranch elseBranch =>
    refine forwards_bind (quiet_perform rfl) fun _ => ?_
    split
    · exact forwards_performs .same trivial (fun _ => .thenBranch) rfl
    · split
      · exact forwards_performs .same trivial (fun _ => .elseBranch) rfl
      · exact forwards_pure _
  | whileLoop condition body => exact forwards_performs .same trivial (fun _ => .whileLoop) rfl
  | forEach line name iterable body =>
    refine forwards_bind (quiet_perform rfl) fun _ => ?_
    split
    · exact forwards_bind (quiet_perform rfl) fun _ =>
        forwards_bind (quiet_doing (.cursorFor _)) fun _ =>
          forwards_performs .same trivial (fun _ => .forEach) rfl
    · exact forwards_fail (by simp) _
  | funDecl declaration =>
    exact forwards_bind (quiet_doing (.total fun _ => ⟨_, _, rfl⟩)) fun _ =>
      forwards_bind (quiet_doing (.define _ _)) fun _ => forwards_pure _
  | ret line value => exact forwards_bind (quiet_perform rfl) fun _ => forwards_pure _
  | classDecl name superclass methods =>
    cases superclass with
    | none =>
      exact forwards_bind (quiet_pure _) fun _ =>
        forwards_bind (quiet_declareClass _ _ _) fun _ => forwards_pure _
    | some parent =>
      exact forwards_bind (quiet_perform rfl) fun _ =>
        forwards_bind (quiet_doing (.superclassOf _ _)) fun _ =>
          forwards_bind (quiet_pure _) fun _ =>
            forwards_bind (quiet_declareClass _ _ _) fun _ => forwards_pure _

/-- A loop ends with the `return` of its body, and otherwise goes on to its next turn. -/
theorem forwards_forEachScript (cursor : Cursor) (line : Nat) (name : Name) (body : Stmt) :
    ForwardsParts (.forEach cursor line name body) (forEachScript cursor line name body) := by
  refine forwards_bind (quiet_perform rfl) fun more => ?_
  split
  · refine forwards_bind (quiet_openScope _) fun scope => forwards_bind (quiet_perform rfl)
      fun _ => forwards_bind (quiet_doing (.defineIn _ _ _)) fun _ =>
        forwards_call (.scope scope) trivial (fun _ => id) (fun returned statement v => ?_)
          fun completion => ?_
    · cases statement
      rfl
    · cases completion with
      | normal =>
        exact forwards_bind (quiet_perform rfl) fun _ =>
          forwards_performs .same trivial (fun _ => id) rfl
      | returned value => exact forwards_pure _
  · exact forwards_pure _

/-- **Every statement ends with the `return` of a part of it.** -/
theorem forwards_script {task : Task} {how : Value → task.Answer}
    (statement : task.returned? = some how) : task.script.Forwards (PartOf task) how := by
  cases task with
  | exec st =>
    cases statement
    exact forwards_execScript st
  | execAll body =>
    cases statement
    cases body with
    | nil => exact forwards_pure _
    | cons first rest =>
      refine forwards_call .same trivial (fun st inside => ⟨first, List.mem_cons_self, inside⟩)
        (fun returned statement v => ?_) fun completion => ?_
      · cases statement
        rfl
      · cases completion with
        | normal =>
          refine forwards_performs .same trivial ?_ rfl
          rintro st ⟨other, mem, inside⟩
          exact ⟨other, List.mem_cons_of_mem _ mem, inside⟩
        | returned value => exact forwards_pure _
  | whileLoop condition body =>
    cases statement
    refine forwards_bind (quiet_perform rfl) fun _ => ?_
    split
    · refine forwards_call .same trivial (fun _ => id) (fun returned statement v => ?_)
        fun completion => ?_
      · cases statement
        rfl
      · cases completion with
        | normal => exact forwards_performs .same trivial (fun _ => id) rfl
        | returned value => exact forwards_pure _
    · exact forwards_pure _
  | forEach cursor line name body =>
    cases statement
    exact forwards_forEachScript cursor line name body
  | _ => cases statement

end Task

end Lox
