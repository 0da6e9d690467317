/-
# How acts conduct themselves

Printing apart, no act of a script looks at the output or changes it, and an act that fails does so
for reasons of its own: neither because too many calls are in progress, nor because the output is
closed, nor because the arguments are not as many as they should be (`Eval.Detached`).

A task fits if it has as many arguments as it should have (`Task.Fits`).  The tasks that a fitting
task calls fit too, and calls in progress are counted where callables are applied, by calls, and
nowhere else (`Script.Detached`, `Script.Fitting`).
-/
import Mathlib.Data.List.Basic
import Lox.Proofs.Eval.Moment

namespace Lox

/-! ## 1. Detached acts

What an act may do is stated for two runs at once, in states that differ in their output only: both
end in the same way (`SameEnd`), and neither touches the output.  Printing is the one act that
cannot be so. -/

/-- A state with other output. -/
def State.writing (s : State) (output : Output) : State := { s with output := output }

/-- An evaluation ends in the same way with other output as well. -/
def SameEnd {α : Type} (output : Output) (same : α → α → Prop) :
    (result result' : EStateM.Result Interrupt State α) → Prop
  | .ok v s, .ok v' s' => same v v' ∧ s' = s.writing output
  | .error interrupt s, .error interrupt' s' => interrupt' = interrupt ∧ s' = s.writing output
  | _, _ => False

/-- An act can fail for this reason.  The number of calls in progress is none. -/
def Interrupt.Plain : Interrupt → Prop
  | .error e => e.cause ≠ .stackOverflow
  | .starved => True
  | .outOfFuel | .misuse => False

/-- An act other than printing can fail for this reason. -/
def Interrupt.Common (interrupt : Interrupt) : Prop :=
  interrupt.Plain ∧ ∀ line, interrupt ≠ .error ⟨.outputClosed, line⟩

/-- Whether a cause is a limit, on the calls in progress or on what is printed. -/
def RuntimeCause.isLimit : RuntimeCause → Bool
  | .stackOverflow | .outputClosed => true
  | _ => false

theorem Interrupt.common_error {cause : RuntimeCause} (other : cause.isLimit = false)
    (line : Nat) : (Interrupt.error ⟨cause, line⟩).Common := by
  constructor
  · intro same
    change cause = .stackOverflow at same
    rw [same] at other
    cases other
  · rintro line' ⟨⟩
    cases other

namespace Eval

variable {α β : Type}

/-- The output makes no difference to an act, up to what is the same for the rest of the script, and
the act does nothing to the output. -/
structure DetachedUpTo (same : α → α → Prop) (x : Eval α) : Prop where
  blind : ∀ s output, SameEnd output same (x s) (x (s.writing output))
  fails : ∀ s interrupt s', x s = .error interrupt s' → interrupt.Common

/-- The output makes no difference to an act, nor the act to the output. -/
abbrev Detached (x : Eval α) : Prop := DetachedUpTo Eq x

namespace Detached

/-- An act that is detached outright is so up to any reflexive relation, which is how acts other
than printing enter a detached script. -/
theorem upTo {x : Eval α} (h : Detached x) {same : α → α → Prop} (refl : ∀ v, same v v) :
    DetachedUpTo same x := by
  refine ⟨fun s output => ?_, h.fails⟩
  have blind := h.blind s output
  cases hs : x s <;> cases hs' : x (s.writing output) <;> rw [hs, hs'] at blind
  · obtain ⟨rfl, rest⟩ := blind
    exact ⟨refl _, rest⟩
  · exact blind
  · exact blind
  · exact blind

theorem pure (value : α) : Detached (Pure.pure value) := by
  refine ⟨fun _ _ => ⟨rfl, rfl⟩, fun s interrupt s' failed => ?_⟩
  cases failed

theorem throw {interrupt : Interrupt} (h : interrupt.Common) :
    Detached (MonadExcept.throw interrupt : Eval α) := by
  refine ⟨fun _ _ => ⟨rfl, rfl⟩, fun s _ _ failed => ?_⟩
  cases failed
  exact h

theorem fail {cause : RuntimeCause} (other : cause.isLimit = false) (line : Nat) :
    Detached (Eval.fail cause line : Eval α) :=
  .throw (Interrupt.common_error other line)

theorem failBuiltin (cause : BuiltinCause) (line : Nat) :
    Detached (Eval.failBuiltin cause line : Eval α) :=
  .fail rfl line

/-- What the first act hands on does not depend on the output, so the second act starts from states
that differ in the output only. -/
theorem bind {x : Eval α} {f : α → Eval β} (hx : Detached x) (hf : ∀ v, Detached (f v)) :
    Detached (x >>= f) := by
  constructor
  · intro s output
    have blind := hx.blind s output
    cases hs : x s <;> cases hs' : x (s.writing output) <;> rw [hs, hs'] at blind
    · obtain ⟨rfl, rfl⟩ := blind
      rw [bind_of_ok hs, bind_of_ok hs']
      exact (hf _).blind _ output
    · exact blind.elim
    · exact blind.elim
    · rw [bind_of_error hs, bind_of_error hs']
      exact blind
  · intro s interrupt s' failed
    cases hs : x s with
    | ok v t => exact (hf v).fails t _ _ ((bind_of_ok hs f).symm.trans failed)
    | error interrupt' t =>
      cases (bind_of_error hs f).symm.trans failed
      exact hx.fails s _ _ hs

theorem map {f : α → β} {x : Eval α} (hx : Detached x) : Detached (f <$> x) := by
  rw [← bind_pure_comp]
  exact hx.bind fun v => .pure (f v)

/-- A look at what is not output. -/
theorem look {f : State → Eval β} (same : ∀ s output, f (s.writing output) = f s)
    (hf : ∀ s, Detached (f s)) : Detached (MonadState.get >>= f) := by
  refine ⟨fun s output => ?_, fun s interrupt s' failed => (hf s).fails s _ _ failed⟩
  rw [look_bind, look_bind, same]
  exact (hf s).blind s output

/-- An update that treats the output as a passenger is detached.  Most acts below are of this form,
and the hypothesis holds by definition. -/
theorem modifyGet {f : State → α × State}
    (h : ∀ s output, f (s.writing output) = ((f s).1, (f s).2.writing output)) :
    Detached (MonadStateOf.modifyGet f) := by
  refine ⟨fun s output => ?_, fun s interrupt s' failed => by cases failed⟩
  change (f s).1 = (f (s.writing output)).1 ∧ (f (s.writing output)).2 = _
  rw [h]
  exact ⟨rfl, rfl⟩

/-- Detached acts may be chosen between, as long as the choice does not look at the output. -/
theorem ite {p : Prop} [Decidable p] {x y : Eval α} (hx : Detached x) (hy : Detached y) :
    Detached (if p then x else y) := by
  split <;> assumption

/-! ### Scopes and instances

Acts that make or change a part of the state beside the output. -/

theorem defineIn (scope : ScopeId) (name : String) (value : Value) :
    Detached (Eval.defineIn scope name value) :=
  .modifyGet fun _ _ => rfl

theorem define (name : String) (value : Value) : Detached (Eval.define name value) :=
  .look (fun _ _ => rfl) fun _ => .defineIn _ _ _

theorem freshStamp : Detached Eval.freshStamp := .modifyGet fun _ _ => rfl

theorem newInstance (cls : Class) (payload : Option Payload) :
    Detached (Eval.newInstance cls payload) :=
  .modifyGet fun _ _ => rfl

theorem modifyHeap (change : Heap → Heap) : Detached (Eval.modifyHeap change) :=
  .modifyGet fun _ _ => rfl

theorem newStorage (items : Array Value) : Detached (Eval.newStorage items) :=
  .modifyGet fun _ _ => rfl

theorem newList (items : List Value) : Detached (Eval.newList items) :=
  .bind (.newStorage _) fun _ => .map (.newInstance _ _)

/-- A variable is looked up in the resolution and the scopes, and what is reported is that it is
undefined. -/
theorem readVariable (id : Id) (name : String) (line : Nat) :
    Detached (Eval.readVariable id name line) := by
  refine .look (fun _ _ => rfl) fun state => ?_
  dsimp only
  split
  · exact .pure _
  · exact .fail rfl _

/-- An assignment fails as a read does, and what it changes is one scope. -/
theorem writeVariable (target : Variable) (value : Value) :
    Detached (Eval.writeVariable target value) := by
  constructor
  · intro s output
    simp only [Eval.writeVariable, State.writing]
    split <;> exact ⟨rfl, rfl⟩
  · intro s interrupt s' failed
    simp only [Eval.writeVariable] at failed
    split at failed
    · cases failed
    · cases failed
      exact Interrupt.common_error rfl _

/-! ### Operators, functions and classes

Acts that compare, compute or build values.  Their failures are those of the program. -/

theorem unary (op : UnaryOp) (line : Nat) (operand : Value) :
    Detached (Eval.unary op line operand) := by
  unfold Eval.unary
  split <;> first | exact .pure _ | exact .fail rfl _

/-- The only failure of arithmetic is a division by zero. -/
theorem arithmetic (op : BinaryOp) (line : Nat) (x y : Float) :
    Detached (Eval.arithmetic op line x y) := by
  cases op <;> first | exact .pure _ | exact .ite (.fail rfl _) (.pure _)

theorem binary (op : BinaryOp) (line : Nat) (left right : Value) :
    Detached (Eval.binary op line left right) := by
  unfold Eval.binary
  repeat' split
  all_goals first | exact .pure _ | exact .fail rfl _ | exact .arithmetic _ _ _ _

/-- How a loop steps through an iterator is seen from the heap alone. -/
theorem cursorFor (iterator : Value) : Detached (Eval.cursorFor iterator) := by
  unfold Eval.cursorFor
  split
  · exact .look (fun _ _ => rfl) fun _ => .ite (.pure _) (.pure _)
  · exact .pure _

theorem newClosure (declaration : FunDecl) (scope : ScopeId) (isInitializer : Bool) :
    Detached (Eval.newClosure declaration scope isInitializer) :=
  .bind .freshStamp fun _ => .pure _

/-- By induction on the declarations.  Each of them adds a closure and nothing else. -/
theorem newMethods (scope : ScopeId) (declarations : List FunDecl) (methods : Bindings Closure) :
    Detached (Eval.newMethods scope declarations methods) := by
  induction declarations generalizing methods with
  | nil => exact .pure _
  | cons declaration rest ih => exact .bind (.newClosure _ _ _) fun _ => ih _

/-- That a superclass is not a class is for the program to answer for. -/
theorem superclassOf (name : Name) (value : Value) : Detached (Eval.superclassOf name value) := by
  unfold Eval.superclassOf
  split
  · exact .pure _
  · exact .fail rfl _

/-- The caller has as many values as names, which is what `Task.Fits` sees to, but even too few
values make for a failure that has nothing to do with the output. -/
theorem defineAll (scope : ScopeId) (names : List Name) (values : List Value) :
    Detached (Eval.defineAll scope names values) := by
  induction names generalizing values with
  | nil => exact .pure _
  | cons name names ih =>
    cases values with
    | nil => exact .pure _
    | cons value values => exact .bind (.defineIn _ _ _) fun _ => ih _

/-- A call ends with what its body has left behind.  An initializer ends with `this`, which is read
from the scope of the call. -/
theorem callResult (closure : Closure) (completion : Completion) :
    Detached (Eval.callResult closure completion) := by
  refine .ite (.look (fun _ _ => rfl) fun state => ?_) (.pure _)
  split
  · exact .pure _
  · exact .fail rfl _

/-! ### Built-in functions and methods

The bodies of native code.  Each is a sequence of the acts above and of updates of the heap, so none
needs more than its own branches. -/

theorem numberArgument (function : BuiltinFunction) (line : Nat) (value : Value) :
    Detached (Eval.numberArgument function line value) := by
  unfold Eval.numberArgument
  split
  · exact .pure _
  · exact .failBuiltin _ _

/-- A line of input is taken from the input, which is another part of the state than the output. -/
theorem inputLine (line : Nat) : Detached (Eval.inputLine line) := by
  refine .bind (.modifyGet fun _ _ => rfl) fun found => ?_
  cases found with
  | line text => exact .pure _
  | ended => exact .pure _
  | invalid => exact .failBuiltin _ _
  | starved => exact .throw ⟨trivial, fun _ same => by cases same⟩

theorem toText (line : Nat) (value : Value) : Detached (Eval.toText line value) := by
  unfold Eval.toText
  split <;> first | exact .pure _ | exact .failBuiltin _ _

theorem toNumber (line : Nat) (value : Value) : Detached (Eval.toNumber line value) := by
  unfold Eval.toNumber
  repeat' split
  all_goals first | exact .pure _ | exact .failBuiltin _ _

/-- A built-in function that is given as many arguments as it takes. -/
theorem callFunction {function : BuiltinFunction} {arguments : List Value}
    (fits : function.arity = arguments.length) (line : Nat) :
    Detached (Eval.callFunction function arguments line) := by
  unfold Eval.callFunction
  split
  case h_1 => exact .bind (.modifyGet fun _ _ => rfl) fun _ => .pure _
  case h_2 => exact .inputLine _
  case h_3 => exact .toText _ _
  case h_4 => exact .toNumber _ _
  case h_10 => exact .bind (.numberArgument _ _ _) fun _ => .ite (.failBuiltin _ _) (.pure _)
  case h_11 =>
    exfalso
    cases function with
    | clock | input =>
      obtain rfl := List.eq_nil_of_length_eq_zero fits.symm
      simp_all
    | _ =>
      obtain ⟨value, rfl⟩ := List.length_eq_one_iff.1 fits.symm
      simp_all
  all_goals exact .bind (.numberArgument _ _ _) fun _ => .pure _

/-- A list whose storage is missing is reported as a misuse, which does not depend on the output
either. -/
theorem listStorage (self : InstanceId) (line : Nat) : Detached (Eval.listStorage self line) := by
  refine .look (fun _ _ => rfl) fun state => ?_
  split
  · exact .pure _
  · exact .failBuiltin _ _

/-- As for lists, and for the chain of a linked list. -/
theorem linkedChain (self : InstanceId) (line : Nat) : Detached (Eval.linkedChain self line) := by
  refine .look (fun _ _ => rfl) fun state => ?_
  split
  · exact .pure _
  · exact .failBuiltin _ _

/-- As for lists, and for the iterator that an instance holds. -/
theorem heldIterator (self : InstanceId) (line : Nat) :
    Detached (Eval.heldIterator self line) := by
  refine .look (fun _ _ => rfl) fun state => ?_
  split
  · exact .pure _
  · exact .failBuiltin _ _

/-- An index is out of range or not, whatever has been printed. -/
theorem index (storage : StorageId) (line : Nat) (place : Value) :
    Detached (Eval.index storage line place) := by
  unfold Eval.index
  split
  · split
    · exact .look (fun _ _ => rfl) fun _ => .ite (.pure _) (.failBuiltin _ _)
    · exact .failBuiltin _ _
  · exact .failBuiltin _ _

theorem rangeBound (line : Nat) (bound : Value) : Detached (Eval.rangeBound line bound) := by
  unfold Eval.rangeBound
  split
  · exact .pure _
  · exact .failBuiltin _ _

/-- Changing a chain is looking it up and storing what has become of it. -/
theorem modifyChain (self : InstanceId) (line : Nat)
    (change : Nodes Value → Chain → Chain × Nodes Value) :
    Detached (Eval.modifyChain self line change) :=
  .bind (.linkedChain _ _) fun _ => .modifyHeap _

theorem iteratorHasItems (self : InstanceId) (line : Nat) :
    Detached (Eval.iteratorHasItems self line) :=
  .bind (.heldIterator _ _) fun _ => .look (fun _ _ => rfl) fun _ => .pure _

theorem iteratorCurrent (self : InstanceId) (line : Nat) :
    Detached (Eval.iteratorCurrent self line) := by
  refine .bind (.heldIterator _ _) fun _ => .look (fun _ _ => rfl) fun _ => ?_
  split
  · exact .pure _
  · exact .failBuiltin _ _

theorem iteratorAdvance (self : InstanceId) (line : Nat) :
    Detached (Eval.iteratorAdvance self line) :=
  .bind (.heldIterator _ _) fun _ => .modifyHeap _

theorem newIterator (kind : BuiltinClass) (iterator : Iterator) :
    Detached (Eval.newIterator kind iterator) :=
  .bind (.newInstance _ _) fun _ => .pure _

/-- A built-in method that is given as many arguments as it takes. -/
theorem callMethod {method : BuiltinMethod} {arguments : List Value}
    (fits : method.arity = arguments.length) (self : InstanceId) (line : Nat) :
    Detached (Eval.callMethod method self arguments line) := by
  unfold Eval.callMethod
  split
  · exact .bind (.newStorage _) fun _ => .bind (.modifyHeap _) fun _ => .pure _
  · exact .bind (.listStorage _ _) fun _ => .bind (.modifyHeap _) fun _ => .pure _
  · refine .bind (.listStorage _ _) fun _ => .bind (.index _ _ _) fun _ =>
      .look (fun _ _ => rfl) fun _ => ?_
    split
    · exact .pure _
    · exact .failBuiltin _ _
  · exact .bind (.listStorage _ _) fun _ => .bind (.index _ _ _) fun _ =>
      .bind (.modifyHeap _) fun _ => .pure _
  · exact .bind (.listStorage _ _) fun _ => .look (fun _ _ => rfl) fun _ => .pure _
  · exact .bind (.listStorage _ _) fun _ => .newIterator _ _
  · exact .bind (.modifyHeap _) fun _ => .pure _
  · exact .bind (.modifyChain _ _ _) fun _ => .pure _
  · exact .bind (.modifyChain _ _ _) fun _ => .pure _
  · exact .bind (.linkedChain _ _) fun _ => .look (fun _ _ => rfl) fun _ => .pure _
  · exact .bind (.linkedChain _ _) fun _ => .look (fun _ _ => rfl) fun _ => .pure _
  · exact .bind (.linkedChain _ _) fun _ => .pure _
  · exact .bind (.linkedChain _ _) fun _ => .newIterator _ _
  · exact .bind (.rangeBound _ _) fun _ => .bind (.rangeBound _ _) fun _ =>
      .bind (.rangeBound _ _) fun _ =>
        .ite (.failBuiltin _ _) (.bind (.modifyHeap _) fun _ => .pure _)
  · exact .pure _
  · exact .bind (.iteratorHasItems _ _) fun _ => .pure _
  · exact .iteratorCurrent _ _
  · exact .bind (.iteratorAdvance _ _) fun _ => .pure _
  · exfalso
    cases method with
    | listAppend | listAt | linkedAppend | linkedPrepend =>
      obtain ⟨value, rfl⟩ := List.length_eq_one_iff.1 fits.symm
      simp_all
    | listSet =>
      obtain ⟨place, value, rfl⟩ := List.length_eq_two.1 fits.symm
      simp_all
    | rangeInit =>
      obtain ⟨first, last, step, rfl⟩ := List.length_eq_three.1 fits.symm
      simp_all
    | _ =>
      obtain rfl := List.eq_nil_of_length_eq_zero fits.symm
      simp_all

end Detached

/-- Printing fails only where the output is closed. -/
theorem plain_of_printValue {value : Value} {line : Nat} {s s' : State} {interrupt : Interrupt}
    (failed : Eval.printValue value line s = .error interrupt s') : interrupt.Plain := by
  simp only [Eval.printValue] at failed
  split at failed
  · cases failed
  · cases failed
    exact fun same => by cases same

end Eval

/-! ## 2. Detached scripts

A script is a tree of acts and calls, and what is said of acts goes over to it branch by branch.
Two things are added: a call of a task is given the arguments that the task should have, and a frame
counts a call just if the task is one. -/

/-- There are as many arguments as there should be. -/
def Task.Fits : Task → Prop
  | apply callable arguments _ => callable.arity = arguments.length
  | applyMethod method arguments _ => method.method.arity = arguments.length
  | applyClosure closure arguments => closure.arity = arguments.length
  | _ => True

/-- Whether a task is given the arguments of a callable. -/
def Task.takesArguments : Task → Bool
  | apply .. | applyMethod .. | applyClosure .. => true
  | _ => false

/-- Whether a task calls a value. -/
def Task.isCall : Task → Bool
  | call .. => true
  | _ => false

/-- Whether a task is what a call does when it is in progress. -/
def Task.isActivation : Task → Bool
  | apply .. => true
  | _ => false

/-- A task without arguments fits trivially, and it is not what a call does when it is in
progress. -/
theorem Task.fits_of_takesArguments {task : Task} (h : task.takesArguments = false) :
    task.Fits ∧ task.isActivation = false := by
  cases task with
  | apply | applyMethod | applyClosure => cases h
  | _ => exact ⟨trivial, rfl⟩

namespace Frame

/-- Whether a frame counts as one more call. -/
def isCall : Frame → Bool
  | call _ => true
  | _ => false

/-- How an evaluation ends behind a frame. -/
def leaveEnd {α : Type} (frame : Frame) (s : State) :
    EStateM.Result Interrupt State α → EStateM.Result Interrupt State α
  | .ok v t => .ok v (frame.leave s t)
  | .error interrupt t => .error interrupt (frame.leave s t)

/-- What happens around an evaluation once its frame has been entered. -/
theorem around_of_ok {α : Type} {frame : Frame} {s inner : State}
    (entered : frame.enter s = .ok inner) (x : Eval α) :
    frame.around x s = frame.leaveEnd s (x inner) := by
  cases ended : x inner with
  | ok v t => simp only [frame.around_eq, entered, ended, leaveEnd]
  | error interrupt t => simp only [frame.around_eq, entered, ended, leaveEnd]

/-- What happens when the frame refuses to be entered.  The state is as it was. -/
theorem around_of_error {α : Type} {frame : Frame} {s : State} {interrupt : Interrupt}
    (refused : frame.enter s = .error interrupt) (x : Eval α) :
    frame.around x s = .error interrupt s := by
  rw [frame.around_eq, refused]

end Frame

namespace Script

variable {α β : Type}

/-- All acts of a script are detached, all tasks that it calls fit and are counted as calls just if
they should be (`calls`), and its values are as they should be. -/
def Detached (calls : Bool) (post : α → Prop) : Script α → Prop
  | .done v => post v
  | .act (.plain action) next =>
    Eval.DetachedUpTo (fun v v' => next v = next v') action ∧ ∀ v, (next v).Detached calls post
  | .act (.opening _ _) next => ∀ v, (next v).Detached calls post
  | .call frame task next =>
    task.Fits ∧ (frame.isCall = calls ∧ task.isActivation = calls) ∧
      ∀ v, (next v).Detached calls post

/-- No act of a script fails because of the calls in progress, and all tasks that it calls fit and
are counted as calls just if they should be. -/
def Fitting (calls : Bool) : Script α → Prop
  | .done _ => True
  | .act (.plain action) next =>
    (∀ s interrupt s', action s = .error interrupt s' → interrupt.Plain) ∧
      ∀ v, (next v).Fitting calls
  | .act (.opening _ _) next => ∀ v, (next v).Fitting calls
  | .call frame task next =>
    task.Fits ∧ (frame.isCall = calls ∧ task.isActivation = calls) ∧ ∀ v, (next v).Fitting calls

variable {calls : Bool} {post : α → Prop} {post' : β → Prop}

/-- Where the output makes no difference there is no failure that the output or the limit of calls
accounts for. -/
theorem Detached.fitting {script : Script α} (h : script.Detached calls post) :
    script.Fitting calls := by
  induction script with
  | done v => trivial
  | act action next ih =>
    cases action with
    | plain action =>
      exact ⟨fun s interrupt s' failed => (h.1.fails s interrupt s' failed).1,
        fun v => ih v (h.2 v)⟩
    | opening origin enclosing => exact fun v => ih v (h v)
  | call frame task next ih => exact ⟨h.1, h.2.1, fun v => ih v (h.2.2 v)⟩

/-- Detached scripts follow each other, and the second has the values of the first to go by. -/
theorem detached_bind {script : Script α} (h : script.Detached calls post) {f : α → Script β}
    (hf : ∀ v, post v → (f v).Detached calls post') : (script >>= f).Detached calls post' := by
  induction script with
  | done v => exact hf v h
  | act action next ih =>
    cases action with
    | plain action =>
      refine ⟨⟨fun s output => ?_, h.1.fails⟩, fun v => ih v (h.2 v)⟩
      have blind := h.1.blind s output
      cases hs : action s <;> cases hs' : action (s.writing output) <;> rw [hs, hs'] at blind
      · exact ⟨congrArg (· >>= f) blind.1, blind.2⟩
      · exact blind
      · exact blind
      · exact blind
    | opening origin enclosing => exact fun v => ih v (h v)
  | call frame task next ih => exact ⟨h.1, h.2.1, fun v => ih v (h.2.2 v)⟩

theorem detached_pure {v : α} (h : post v) : (pure v : Script α).Detached calls post := h

theorem detached_doing {action : Eval α} (h : action.Detached) :
    (doing action).Detached calls fun _ => True :=
  ⟨h.upTo fun _ => rfl, fun _ => trivial⟩

theorem detached_fail {cause : RuntimeCause} (other : cause.isLimit = false) (line : Nat) :
    (doing (Eval.fail cause line : Eval α)).Detached calls fun _ => True :=
  detached_doing (.fail other line)

/-- What is done after a look at the state does not go by the output. -/
theorem detached_look {view : State → α} {f : α → Script β}
    (same : ∀ s output, f (view s) = f (view (s.writing output)))
    (hf : ∀ v, (f v).Detached calls post') : (seeing view >>= f).Detached calls post' :=
  ⟨⟨fun s output => ⟨same s output, rfl⟩, fun s interrupt s' failed => by cases failed⟩, hf⟩

/-- A view of the state that leaves out the output is detached. -/
theorem detached_seeing {view : State → α} (same : ∀ s output, view s = view (s.writing output)) :
    (seeing view).Detached calls fun _ => True :=
  detached_look (fun s output => congrArg done (same s output)) fun _ => trivial

theorem detached_opening (origin : ScopeOrigin) (enclosing : ScopeId) :
    (opening origin enclosing).Detached calls fun _ => True :=
  fun _ => trivial

theorem detached_openScope (origin : ScopeOrigin) :
    (openScope origin).Detached calls fun _ => True :=
  detached_look (fun _ _ => rfl) fun _ => detached_opening _ _

/-- A script that calls a task without arguments is detached if it goes on so with every answer. -/
theorem detached_call {frame : Frame} {task : Task} {next : task.Answer → Script α}
    (inner : frame.isCall = false) (other : task.takesArguments = false)
    (h : ∀ v, (next v).Detached false post) : (call frame task next).Detached false post := by
  obtain ⟨fits, uncounted⟩ := Task.fits_of_takesArguments other
  exact ⟨fits, ⟨inner, uncounted⟩, h⟩

/-- Evaluating or executing a part of the program in the current scope is no call. -/
theorem detached_perform {task : Task} (other : task.takesArguments = false) :
    (perform task).Detached false fun _ => True :=
  detached_call rfl other fun _ => trivial

theorem detached_performIn {task : Task} (scope : ScopeId) (other : task.takesArguments = false) :
    (performIn scope task).Detached false fun _ => True :=
  detached_call rfl other fun _ => trivial

end Script

namespace Task

open Script

/-- A method that is bound takes as many arguments as before. -/
theorem detached_bindMethod (receiver : InstanceId) (method : Method) :
    (bindMethod receiver method).Detached false fun bound => bound.method.arity = method.arity := by
  cases method with
  | builtin method => exact detached_pure rfl
  | declared closure =>
    exact detached_bind (detached_opening _ _) fun _ _ =>
      detached_bind (detached_doing (.defineIn _ _ _)) fun _ _ =>
        detached_bind (detached_doing .freshStamp) fun _ _ => detached_pure rfl

/-- What a property that is a method comes to. -/
theorem detached_bound (receiver : InstanceId) (method : Method) :
    (do return .callable (.bound (← bindMethod receiver method)) : Script Value).Detached false
      fun _ => True :=
  detached_bind (detached_bindMethod _ _) fun _ _ => detached_pure trivial

/-- A property is a field or a method, and otherwise undefined. -/
theorem detached_getProperty (id : InstanceId) (name : String) (line : Nat) :
    (getProperty id name line).Detached false fun _ => True := by
  refine detached_look (fun _ _ => rfl) fun heap => ?_
  split
  · exact detached_pure trivial
  · split
    · exact detached_bound _ _
    · exact detached_fail rfl _

/-- The superclass is found in the scopes, and the method along its chain. -/
theorem detached_superMethod (node : Id) (line : Nat) (method : Name) :
    (superMethod node line method).Detached false fun _ => True := by
  refine detached_look (fun _ _ => rfl) fun state => ?_
  split
  · split
    · split
      · exact detached_bound _ _
      · exact detached_fail rfl _
    all_goals exact detached_fail rfl _
  · exact detached_fail rfl _

theorem detached_methodScope (methods : List FunDecl) (superclass : Option Class) :
    (methodScope methods superclass).Detached false fun _ => True := by
  cases superclass with
  | none => exact detached_seeing fun _ _ => rfl
  | some cls =>
    exact detached_bind (detached_openScope _) fun _ _ =>
      detached_bind (detached_doing (.defineIn _ _ _)) fun _ _ => detached_pure trivial

theorem detached_declareClass (name : Name) (superclass : Option Class) (methods : List FunDecl) :
    (declareClass name superclass methods).Detached false fun _ => True :=
  detached_bind (detached_doing (.define _ _)) fun _ _ =>
    detached_bind (detached_methodScope _ _) fun _ _ =>
      detached_bind (detached_doing .freshStamp) fun _ _ =>
        detached_bind (detached_doing (.newMethods _ _ _)) fun _ _ => detached_doing (.define _ _)

/-- One case for each kind of expression.  A call and a call of a method fit, since the arguments
are counted before anything is applied. -/
theorem detached_evalScript (e : Expr) : (evalScript e).Detached false fun _ => True := by
  cases e with
  | literal value => exact detached_pure trivial
  | grouping inner => exact detached_perform rfl
  | unary op line operand =>
    exact detached_bind (detached_perform rfl) fun _ _ => detached_doing (.unary _ _ _)
  | binary op line left right =>
    exact detached_bind (detached_perform rfl) fun _ _ =>
      detached_bind (detached_perform rfl) fun _ _ => detached_doing (.binary _ _ _ _)
  | logical op line left right =>
    refine detached_bind (detached_perform rfl) fun _ _ => ?_
    split
    · exact detached_pure trivial
    · exact detached_perform rfl
  | «variable» v => exact detached_doing (.readVariable _ _ _)
  | assign target value =>
    exact detached_bind (detached_perform rfl) fun _ _ =>
      detached_bind (detached_doing (.writeVariable _ _)) fun _ _ => detached_pure trivial
  | call callee arguments line =>
    exact detached_bind (detached_perform rfl) fun _ _ =>
      detached_bind (detached_perform rfl) fun _ _ => detached_perform rfl
  | get object property =>
    refine detached_bind (detached_perform rfl) fun _ _ => ?_
    split
    · exact detached_getProperty _ _ _
    · exact detached_fail rfl _
  | set object property value =>
    refine detached_bind (detached_perform rfl) fun _ _ => ?_
    split
    · exact detached_bind (detached_perform rfl) fun _ _ =>
        detached_bind (detached_doing (.modifyHeap _)) fun _ _ => detached_pure trivial
    · exact detached_fail rfl _
  | this id line => exact detached_doing (.readVariable _ _ _)
  | super id line method => exact detached_superMethod _ _ _
  | list line elements =>
    exact detached_bind (detached_perform rfl) fun _ _ => detached_doing (.newList _)

/-- The class of an instance that is made takes the arguments of its initializer. -/
theorem detached_applyScript {callable : Callable} {arguments : List Value} {line : Nat}
    (fits : (apply callable arguments line).Fits) :
    (applyScript callable arguments line).Detached false fun _ => True := by
  cases callable with
  | builtin function => exact detached_doing (.callFunction fits _)
  | closure closure => exact ⟨fits, ⟨rfl, rfl⟩, fun _ => trivial⟩
  | bound method => exact ⟨fits, ⟨rfl, rfl⟩, fun _ => trivial⟩
  | «class» cls =>
    refine detached_bind (detached_doing (.newInstance _ _)) fun id _ => ?_
    split
    · rename_i initializer found
      have arity : cls.arity = initializer.arity := by
        rw [Class.arity, found, Option.map_some, Option.getD_some]
      refine detached_bind (detached_bindMethod _ _) fun bound same => ?_
      exact ⟨same.trans (arity.symm.trans fits), ⟨rfl, rfl⟩, fun _ => trivial⟩
    · exact detached_pure trivial

/-- The body of a closure runs in a scope of its own, as a task without arguments. -/
theorem detached_applyClosureScript (closure : Closure) (arguments : List Value) :
    (applyClosureScript closure arguments).Detached false fun _ => True :=
  detached_bind (detached_opening _ _) fun _ _ =>
    detached_bind (detached_doing (.defineAll _ _ _)) fun _ _ =>
      detached_bind (detached_performIn _ rfl) fun _ _ => detached_doing (.callResult _ _)

/-- One case for each kind of statement but `print`, the only one that looks at the output. -/
theorem detached_execScript {st : Stmt} (silent : ∀ line value, st ≠ .print line value) :
    (execScript st).Detached false fun _ => True := by
  cases st with
  | print line value => exact absurd rfl (silent line value)
  | expression value =>
    exact detached_bind (detached_perform rfl) fun _ _ => detached_pure trivial
  | varDecl name initializer =>
    exact detached_bind (detached_perform rfl) fun _ _ =>
      detached_bind (detached_doing (.define _ _)) fun _ _ => detached_pure trivial
  | block body =>
    exact detached_bind (detached_openScope _) fun _ _ => detached_performIn _ rfl
  | ifElse condition thenBranch elseBranch =>
    refine detached_bind (detached_perform rfl) fun _ _ => ?_
    split
    · exact detached_perform rfl
    · split
      · exact detached_perform rfl
      · exact detached_pure trivial
  | whileLoop condition body => exact detached_perform rfl
  | forEach line name iterable body =>
    refine detached_bind (detached_perform rfl) fun _ _ => ?_
    split
    · exact detached_bind (detached_perform rfl) fun _ _ =>
        detached_bind (detached_doing (.cursorFor _)) fun _ _ => detached_perform rfl
    · exact detached_fail rfl _
  | funDecl declaration =>
    exact detached_bind (detached_doing (.look (fun _ _ => rfl) fun _ => .newClosure _ _ _))
      fun _ _ => detached_bind (detached_doing (.define _ _)) fun _ _ => detached_pure trivial
  | ret line value =>
    exact detached_bind (detached_perform rfl) fun _ _ => detached_pure trivial
  | classDecl name superclass methods =>
    have declares : ∀ superclass : Option Class,
        (do declareClass name superclass methods; return Completion.normal : Script _).Detached
          false fun _ => True :=
      fun _ => detached_bind (detached_declareClass _ _ _) fun _ _ => detached_pure trivial
    cases superclass with
    | none => exact declares none
    | some parent =>
      exact detached_bind (detached_perform rfl) fun _ _ =>
        detached_bind (detached_doing (.superclassOf _ _)) fun cls _ => declares (some cls)

/-- A turn of a loop calls the methods of the iterator, if the loop does not hold a position of its
own, and then runs the body. -/
theorem detached_forEachScript (cursor : Cursor) (line : Nat) (name : Name) (body : Stmt) :
    (forEachScript cursor line name body).Detached false fun _ => True := by
  refine detached_bind (detached_perform rfl) fun more _ => ?_
  split
  · refine detached_bind (detached_openScope _) fun _ _ =>
      detached_bind (detached_perform rfl) fun _ _ =>
        detached_bind (detached_doing (.defineIn _ _ _)) fun _ _ =>
          detached_bind (detached_performIn _ rfl) fun completion _ => ?_
    cases completion with
    | normal =>
      exact detached_bind (detached_perform rfl) fun _ _ => detached_perform rfl
    | returned value => exact detached_pure trivial
  · exact detached_pure trivial

/-- **The scripts of all fitting tasks but prints are detached.**  Only calls count what they
call. -/
theorem detached_script {task : Task} (fits : task.Fits)
    (silent : ∀ line value, task ≠ .exec (.print line value)) :
    task.script.Detached task.isCall fun _ => True := by
  cases task with
  | eval e => exact detached_evalScript e
  | evalAll es =>
    cases es with
    | nil => exact detached_pure trivial
    | cons e es =>
      exact detached_bind (detached_perform rfl) fun _ _ =>
        detached_bind (detached_perform rfl) fun _ _ => detached_pure trivial
  | evalOptional e =>
    cases e with
    | none => exact detached_pure trivial
    | some e => exact detached_perform rfl
  | call callee arguments line =>
    change (callScript callee arguments line).Detached true fun _ => True
    unfold callScript
    split
    · split
      · rename_i arity
        exact ⟨arity, ⟨rfl, rfl⟩, fun _ => trivial⟩
      · exact detached_fail rfl _
    · exact detached_fail rfl _
  | apply callable arguments line => exact detached_applyScript fits
  | applyMethod method arguments line =>
    obtain ⟨receiver, method⟩ := method
    cases method with
    | builtin method => exact detached_doing (.callMethod fits _ _)
    | declared closure => exact ⟨fits, ⟨rfl, rfl⟩, fun _ => trivial⟩
  | applyClosure closure arguments => exact detached_applyClosureScript closure arguments
  | invoke receiver name arguments line =>
    cases receiver with
    | inst id =>
      exact detached_bind (detached_getProperty _ _ _) fun _ _ => detached_perform rfl
    | _ => exact detached_fail rfl _
  | exec st => exact detached_execScript fun line value same => silent line value (same ▸ rfl)
  | execAll body =>
    cases body with
    | nil => exact detached_pure trivial
    | cons first rest =>
      refine detached_bind (detached_perform rfl) fun completion _ => ?_
      cases completion with
      | normal => exact detached_perform rfl
      | returned value => exact detached_pure trivial
  | whileLoop condition body =>
    refine detached_bind (detached_perform rfl) fun _ _ => ?_
    split
    · refine detached_bind (detached_perform rfl) fun completion _ => ?_
      cases completion with
      | normal => exact detached_perform rfl
      | returned value => exact detached_pure trivial
    · exact detached_pure trivial
  | forEach cursor line name body => exact detached_forEachScript cursor line name body
  | cursorHasItems cursor line =>
    cases cursor with
    | direct id => exact detached_doing (.iteratorHasItems _ _)
    | protocol iterator =>
      exact detached_bind (detached_perform rfl) fun _ _ => detached_pure trivial
  | cursorCurrent cursor line =>
    cases cursor with
    | direct id => exact detached_doing (.iteratorCurrent _ _)
    | protocol iterator => exact detached_perform rfl
  | cursorAdvance cursor line =>
    cases cursor with
    | direct id => exact detached_doing (.iteratorAdvance _ _)
    | protocol iterator =>
      exact detached_bind (detached_perform rfl) fun _ _ => detached_pure trivial

/-- **The scripts of all fitting tasks are fitting**, those of prints among them. -/
theorem fitting_script {task : Task} (fits : task.Fits) : task.script.Fitting task.isCall := by
  by_cases prints : ∃ line value, task = .exec (.print line value)
  · obtain ⟨line, value, rfl⟩ := prints
    exact ⟨trivial, ⟨rfl, rfl⟩, fun v =>
      ⟨fun s interrupt s' failed => Eval.plain_of_printValue failed, fun _ => trivial⟩⟩
  · exact (detached_script fits fun line value same => prints ⟨line, value, same⟩).fitting

end Task

/-! ## 3. Moments

A run passes through moments, the tasks that begin and the acts that fail, and both halves of §2 are
read off at each of them. -/

/-- The task that begins, if one does, is given as many arguments as it should be. -/
def Moment.Fits : Moment → Prop
  | .begins _ task _ => task.Fits
  | .opens .. => True

/-- What fits goes on fitting behind an act, and its failures are plain ones. -/
theorem Script.Fitting.act {α β : Type} {action : Act β} {next : β → Script α} {calls : Bool}
    (h : (Script.act action next).Fitting calls) :
    (∀ s interrupt s', action.run s = .error interrupt s' → interrupt.Plain) ∧
      ∀ v, (next v).Fitting calls := by
  cases action with
  | plain action => exact h
  | opening origin enclosing => exact ⟨fun s interrupt s' failed => (by cases failed), h⟩

/-- Every task that begins while a fitting script runs is given the arguments that it should be
given. -/
theorem Script.Fitting.fits {α : Type} {script : Script α} {calls : Bool} {fuel : Nat} {s : State}
    {m : Moment} (h : script.Fitting calls) (passes : script.Passes fuel s m) : m.Fits := by
  induction passes with
  | opening => trivial
  | act _ _ ih => exact ih (h.act.2 _)
  | begins => exact h.1
  | call _ _ ih => exact ih (h.2.2 _)

/-- If a fitting script fails for another reason than its acts have, then too many calls are in
progress, or a task that it calls fails for this reason. -/
theorem Script.Fitting.failed {α : Type} {script : Script α} {calls : Bool} {fuel : Nat}
    {s s' : State} {interrupt : Interrupt} (h : script.Fitting calls)
    (failed : script.run (Task.run fuel) s = .error interrupt s') (other : ¬ interrupt.Plain) :
    (calls = true ∧ ∃ line, interrupt = .error ⟨.stackOverflow, line⟩) ∨
      ∃ task inner t, script.Passes fuel s (.begins fuel task inner) ∧
        task.run fuel inner = .error interrupt t := by
  induction script generalizing s with
  | done value => cases failed
  | act action next ih =>
    have rest := h.act
    change (action.run >>= _) s = _ at failed
    cases hs : action.run s with
    | error interrupt' t =>
      cases (Eval.bind_of_error hs _).symm.trans failed
      exact absurd (rest.1 s _ _ hs) other
    | ok v t =>
      rw [Eval.bind_of_ok hs] at failed
      refine (ih v (rest.2 v) failed).imp_right ?_
      rintro ⟨task, inner, t', passes, failed'⟩
      exact ⟨task, inner, t', .act hs passes, failed'⟩
  | call frame task next ih =>
    change (frame.around (task.run fuel) >>= _) s = _ at failed
    cases entered : frame.enter s with
    | error interrupt' =>
      cases (Eval.bind_of_error (Frame.around_of_error entered _) _).symm.trans failed
      left
      cases frame with
      | same | scope id => cases entered
      | call line =>
        simp only [Frame.enter] at entered
        split at entered <;> cases entered
        exact ⟨h.2.1.1.symm, line, rfl⟩
    | ok inner =>
      have around := Frame.around_of_ok entered (task.run fuel)
      cases ran : task.run fuel inner with
      | error interrupt' t =>
        rw [ran] at around
        cases (Eval.bind_of_error around _).symm.trans failed
        exact .inr ⟨task, inner, t, .begins entered, ran⟩
      | ok v t =>
        rw [ran] at around
        rw [Eval.bind_of_ok around] at failed
        refine (ih v (h.2.2 v) failed).imp_right ?_
        rintro ⟨task', inner', t', passes, failed'⟩
        exact ⟨task', inner', t', .call around passes, failed'⟩

/-- **What follows from a fitting task fits.** -/
theorem Moment.Fits.reaches {m m' : Moment} (h : m.Fits) (reaches : m.Reaches m') : m'.Fits := by
  induction reaches with
  | refl => exact h
  | tail _ next ih =>
    obtain ⟨passes⟩ := next
    exact (Task.fitting_script ih).fits passes

end Lox
