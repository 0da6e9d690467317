/-
# What all acts of scripts have in common

A script consists of calls and of acts.  To show that all acts of all scripts have some property
(`Task.acts_script`), it is enough to look at the few acts that change the state, provided that the
property goes over from two evaluations to one behind the other (`Eval.Laws`): all other acts only
look at the state (`Eval.Plain`).  If a task also has the property in every frame in which another
one calls it, then all tasks have it (`Task.acts_run`).

Some tasks are an `Operation`, a method of a built-in class on an instance; the acts of all others
leave the payloads of instances alone (`Task.acts_script_of_basic`).  Only one kind of expression
gives a field a value, and the acts of all other tasks leave instances as they are
(`Task.acts_script_of_still`).  Only the calls of one function ask for input, and the acts of all
other tasks leave the input as it is (`Task.acts_script_of_deaf`).
-/
import Lox.Proofs.Eval.Moment

namespace Lox

/-! ## 1. Properties of evaluations

A property is given by the few evaluations that are to have it, and everything that is made of them
has it too.  The structures below extend each other, from what only looks at the state to what may
change any part of it. -/

namespace Eval

/-- A property that evaluations have if they only look at the state, and do not wait for input. -/
structure Plain (p : ⦃α : Type⦄ → Eval α → Prop) : Prop where
  pure : ∀ {α : Type} (value : α), p (Pure.pure value : Eval α)
  bind : ∀ {α β : Type} {x : Eval α} {f : α → Eval β}, p x → (∀ value, p (f value)) → p (x >>= f)
  get : p (MonadState.get : Eval State)
  throw : ∀ {α : Type} (interrupt : Interrupt), interrupt ≠ .starved →
    p (MonadExcept.throw interrupt : Eval α)

/-- A property that evaluations have if they leave the instances that there are as they are, and the
input. -/
structure DeafLaws (p : ⦃α : Type⦄ → Eval α → Prop) : Prop extends Plain p where
  newScope : ∀ enclosing, p (Eval.newScope enclosing)
  defineIn : ∀ scope name value, p (Eval.defineIn scope name value)
  writeVariable : ∀ target value, p (Eval.writeVariable target value)
  freshStamp : p Eval.freshStamp
  printValue : ∀ value line, p (Eval.printValue value line)
  readClock : p Eval.readClock
  newInstance : ∀ cls, p (Eval.newInstance cls none)
  newList : ∀ items, p (Eval.newList items)

/-- A property that evaluations have if they leave the instances that there are as they are. -/
structure StillLaws (p : ⦃α : Type⦄ → Eval α → Prop) : Prop extends DeafLaws p where
  inputLine : ∀ line, p (Eval.inputLine line)

/-- A property that evaluations have if they leave the payloads of instances alone. -/
structure BasicLaws (p : ⦃α : Type⦄ → Eval α → Prop) : Prop extends StillLaws p where
  setField : ∀ id name value, p (Eval.modifyHeap (·.setField id name value))

/-- A property that evaluations have whatever they do to the heap. -/
structure HeapLaws (p : ⦃α : Type⦄ → Eval α → Prop) : Prop extends Plain p where
  newStorage : ∀ items, p (Eval.newStorage items)
  newInstance : ∀ cls payload, p (Eval.newInstance cls payload)
  modifyHeap : ∀ change, p (Eval.modifyHeap change)

/-- A property that all evaluations have, if those that change the state have it. -/
structure Laws (p : ⦃α : Type⦄ → Eval α → Prop) : Prop extends BasicLaws p where
  callMethod : ∀ method self arguments line, p (Eval.callMethod method self arguments line)
  iteratorAdvance : ∀ self line, p (Eval.iteratorAdvance self line)

variable {p : ⦃α : Type⦄ → Eval α → Prop}

namespace Plain

variable (plain : Plain p) {α : Type}

include plain

theorem fail (cause : RuntimeCause) (line : Nat) : p (Eval.fail cause line : Eval α) :=
  plain.throw _ nofun

theorem failBuiltin (cause : BuiltinCause) (line : Nat) :
    p (Eval.failBuiltin cause line : Eval α) :=
  plain.fail _ _

omit plain in
/-- A choice that is made before anything is done. -/
theorem ite {c : Prop} [Decidable c] {x y : Eval α} (hx : p x) (hy : p y) :
    p (if c then x else y) := by
  split
  · exact hx
  · exact hy

/-- A negation fails on what is not a number, and otherwise only computes. -/
theorem unary (op : UnaryOp) (line : Nat) (operand : Value) : p (Eval.unary op line operand) := by
  unfold Eval.unary
  split
  · exact plain.pure _
  · exact plain.fail _ _
  · exact plain.pure _

theorem arithmetic (op : BinaryOp) (line : Nat) (x y : Float) :
    p (Eval.arithmetic op line x y) := by
  cases op with
  | divide => exact Plain.ite (plain.fail _ _) (plain.pure _)
  | _ => exact plain.pure _

/-- An operator looks at its operands, and some of them at the text of an operand. -/
theorem binary (op : BinaryOp) (line : Nat) (left right : Value) :
    p (Eval.binary op line left right) := by
  unfold Eval.binary
  split
  · exact plain.pure _
  · exact plain.pure _
  · split
    · exact plain.pure _
    · exact plain.pure _
    · exact plain.fail _ _
  · split
    · exact plain.arithmetic _ _ _ _
    · exact plain.fail _ _

/-- A look-up is a view of the state, and a failure if nothing is found. -/
theorem readVariable (id : Id) (name : String) (line : Nat) :
    p (Eval.readVariable id name line) := by
  refine plain.bind plain.get fun state => ?_
  dsimp only
  split
  · exact plain.pure _
  · exact plain.fail _ _

theorem superclassOf (name : Name) (value : Value) : p (Eval.superclassOf name value) := by
  unfold Eval.superclassOf
  split
  · exact plain.pure _
  · exact plain.fail _ _

/-- Which kind of iterator there is, is seen from the heap. -/
theorem cursorFor (iterator : Value) : p (Eval.cursorFor iterator) := by
  unfold Eval.cursorFor
  split
  · exact plain.bind plain.get fun _ => Plain.ite (plain.pure _) (plain.pure _)
  · exact plain.pure _

/-- The result of an initializer is looked up in the scope of its class. -/
theorem callResult (closure : Closure) (completion : Completion) :
    p (Eval.callResult closure completion) := by
  refine Plain.ite (plain.bind plain.get fun state => ?_) (plain.pure _)
  split
  · exact plain.pure _
  · exact plain.fail _ _

theorem numberArgument (function : BuiltinFunction) (line : Nat) (value : Value) :
    p (Eval.numberArgument function line value) := by
  unfold Eval.numberArgument
  split
  · exact plain.pure _
  · exact plain.failBuiltin _ _

theorem toText (line : Nat) (value : Value) : p (Eval.toText line value) := by
  unfold Eval.toText
  split
  · exact plain.pure _
  · exact plain.pure _
  · exact plain.failBuiltin _ _

theorem toNumber (line : Nat) (value : Value) : p (Eval.toNumber line value) := by
  unfold Eval.toNumber
  split
  · exact plain.pure _
  · split
    · exact plain.pure _
    · exact plain.failBuiltin _ _
  · exact plain.failBuiltin _ _

theorem listStorage (self : InstanceId) (line : Nat) : p (Eval.listStorage self line) := by
  refine plain.bind plain.get fun state => ?_
  split
  · exact plain.pure _
  · exact plain.failBuiltin _ _

theorem linkedChain (self : InstanceId) (line : Nat) : p (Eval.linkedChain self line) := by
  refine plain.bind plain.get fun state => ?_
  split
  · exact plain.pure _
  · exact plain.failBuiltin _ _

/-- An index is checked against a storage, which is only looked at. -/
theorem index (storage : StorageId) (line : Nat) (place : Value) :
    p (Eval.index storage line place) := by
  unfold Eval.index
  split
  · split
    · exact plain.bind plain.get fun _ => Plain.ite (plain.pure _) (plain.failBuiltin _ _)
    · exact plain.failBuiltin _ _
  · exact plain.failBuiltin _ _

theorem rangeBound (line : Nat) (bound : Value) : p (Eval.rangeBound line bound) := by
  unfold Eval.rangeBound
  split
  · exact plain.pure _
  · exact plain.failBuiltin _ _

theorem heldIterator (self : InstanceId) (line : Nat) : p (Eval.heldIterator self line) := by
  refine plain.bind plain.get fun state => ?_
  split
  · exact plain.pure _
  · exact plain.failBuiltin _ _

theorem iteratorHasItems (self : InstanceId) (line : Nat) :
    p (Eval.iteratorHasItems self line) :=
  plain.bind (plain.heldIterator _ _) fun _ => plain.bind plain.get fun _ => plain.pure _

/-- The item at hand is looked up, and the iterator stays where it is. -/
theorem iteratorCurrent (self : InstanceId) (line : Nat) :
    p (Eval.iteratorCurrent self line) := by
  refine plain.bind (plain.heldIterator _ _) fun _ => plain.bind plain.get fun _ => ?_
  split
  · exact plain.pure _
  · exact plain.failBuiltin _ _

/-- Asking for a line is to read one, and to wait for it if it has not arrived. -/
theorem inputLine (readLine : p Eval.readLine)
    (starve : p (MonadExcept.throw Interrupt.starved : Eval Value)) (line : Nat) :
    p (Eval.inputLine line) := by
  refine plain.bind readLine fun found => ?_
  split
  · exact plain.pure _
  · exact plain.pure _
  · exact plain.failBuiltin _ _
  · exact starve

end Plain

namespace DeafLaws

variable (laws : DeafLaws p)

include laws

/-- Defining a name in the current scope is defining it in a scope. -/
theorem define (name : String) (value : Value) : p (Eval.define name value) :=
  laws.bind laws.get fun _ => laws.defineIn _ _ _

theorem newClosure (declaration : FunDecl) (scope : ScopeId) (isInitializer : Bool) :
    p (Eval.newClosure declaration scope isInitializer) :=
  laws.bind laws.freshStamp fun _ => laws.pure _

/-- By induction on the declarations, each of which takes a stamp. -/
theorem newMethods (scope : ScopeId) (declarations : List FunDecl) (methods : Bindings Closure) :
    p (Eval.newMethods scope declarations methods) := by
  induction declarations generalizing methods with
  | nil => exact laws.pure _
  | cons declaration rest ih => exact laws.bind (laws.newClosure _ _ _) fun _ => ih _

/-- By induction on the names, as far as there are values for them. -/
theorem defineAll (scope : ScopeId) (names : List Name) (values : List Value) :
    p (Eval.defineAll scope names values) := by
  induction names generalizing values with
  | nil => exact laws.pure _
  | cons name names ih =>
    cases values with
    | nil => exact laws.pure _
    | cons value values => exact laws.bind (laws.defineIn _ _ _) fun _ => ih _

/-- Only `input` reads from the input. -/
theorem callFunction {function : BuiltinFunction} {arguments : List Value} {line : Nat}
    (inputLine : function = .input → arguments = [] → p (Eval.inputLine line)) :
    p (Eval.callFunction function arguments line) := by
  have number : ∀ {function value} {f : Float → Eval Value}, (∀ x, p (f x)) →
      p (Eval.numberArgument function line value >>= f) :=
    fun h => laws.bind (laws.numberArgument _ _ _) h
  unfold Eval.callFunction
  split
  · exact laws.bind laws.readClock fun _ => laws.pure _
  · exact inputLine rfl rfl
  · exact laws.toText _ _
  · exact laws.toNumber _ _
  · exact number fun _ => laws.pure _
  · exact number fun _ => laws.pure _
  · exact number fun _ => laws.pure _
  · exact number fun _ => laws.pure _
  · exact number fun _ => laws.pure _
  · exact number fun _ => Plain.ite (laws.failBuiltin _ _) (laws.pure _)
  · exact laws.throw _ nofun

end DeafLaws

/-- All built-in functions but the one that asks for a line are covered by the laws without the
input. -/
theorem StillLaws.callFunction (laws : StillLaws p) (function : BuiltinFunction)
    (arguments : List Value) (line : Nat) : p (Eval.callFunction function arguments line) :=
  laws.toDeafLaws.callFunction fun _ _ => laws.inputLine line

namespace HeapLaws

variable (laws : HeapLaws p)

include laws

theorem newList (items : List Value) : p (Eval.newList items) :=
  laws.bind (laws.newStorage _) fun _ => laws.bind (laws.newInstance _ _) fun _ => laws.pure _

/-- An update of a chain is an update of the heap. -/
theorem modifyChain (self : InstanceId) (line : Nat)
    (change : Nodes Value → Chain → Chain × Nodes Value) :
    p (Eval.modifyChain self line change) :=
  laws.bind (laws.linkedChain _ _) fun _ => laws.modifyHeap _

theorem iteratorAdvance (self : InstanceId) (line : Nat) : p (Eval.iteratorAdvance self line) :=
  laws.bind (laws.heldIterator _ _) fun _ => laws.modifyHeap _

theorem newIterator (kind : BuiltinClass) (iterator : Iterator) :
    p (Eval.newIterator kind iterator) :=
  laws.bind (laws.newInstance _ _) fun _ => laws.pure _

/-- Every built-in method, as a sequence of what is covered above.  A method that is called on the
wrong kind of instance fails. -/
theorem callMethod (method : BuiltinMethod) (self : InstanceId) (arguments : List Value)
    (line : Nat) : p (Eval.callMethod method self arguments line) := by
  unfold Eval.callMethod
  split
  · exact laws.bind (laws.newStorage _) fun _ => laws.bind (laws.modifyHeap _) fun _ => laws.pure _
  · exact laws.bind (laws.listStorage _ _) fun _ => laws.bind (laws.modifyHeap _)
      fun _ => laws.pure _
  · refine laws.bind (laws.listStorage _ _) fun _ => laws.bind (laws.index _ _ _) fun _ =>
      laws.bind laws.get fun _ => ?_
    split
    · exact laws.pure _
    · exact laws.failBuiltin _ _
  · exact laws.bind (laws.listStorage _ _) fun _ => laws.bind (laws.index _ _ _) fun _ =>
      laws.bind (laws.modifyHeap _) fun _ => laws.pure _
  · exact laws.bind (laws.listStorage _ _) fun _ => laws.bind laws.get fun _ => laws.pure _
  · exact laws.bind (laws.listStorage _ _) fun _ => laws.newIterator _ _
  · exact laws.bind (laws.modifyHeap _) fun _ => laws.pure _
  · exact laws.bind (laws.modifyChain _ _ _) fun _ => laws.pure _
  · exact laws.bind (laws.modifyChain _ _ _) fun _ => laws.pure _
  · exact laws.bind (laws.linkedChain _ _) fun _ => laws.bind laws.get fun _ => laws.pure _
  · exact laws.bind (laws.linkedChain _ _) fun _ => laws.bind laws.get fun _ => laws.pure _
  · exact laws.bind (laws.linkedChain _ _) fun _ => laws.pure _
  · exact laws.bind (laws.linkedChain _ _) fun _ => laws.newIterator _ _
  · exact laws.bind (laws.rangeBound _ _) fun _ => laws.bind (laws.rangeBound _ _) fun _ =>
      laws.bind (laws.rangeBound _ _) fun _ => Plain.ite (laws.failBuiltin _ _)
        (laws.bind (laws.modifyHeap _) fun _ => laws.pure _)
  · exact laws.pure _
  · exact laws.bind (laws.iteratorHasItems _ _) fun _ => laws.pure _
  · exact laws.iteratorCurrent _ _
  · exact laws.bind (laws.iteratorAdvance _ _) fun _ => laws.pure _
  · exact laws.throw _ nofun

end HeapLaws

end Eval

/-! ## 2. Operations

Which tasks change the payload of an instance, set a field or ask for a line themselves, rather than
by way of other tasks. -/

/-- A method of a built-in class on an instance. -/
structure Operation where
  method : BuiltinMethod
  self : InstanceId
  arguments : List Value
  line : Nat

/-- Carries out an operation. -/
def Operation.run (operation : Operation) : Eval Value :=
  Eval.callMethod operation.method operation.self operation.arguments operation.line

/-- The operation that a task is, if it is one.  A loop that steps an iterator directly does what
calls would do. -/
def Task.operation? : Task → Option Operation
  | applyMethod ⟨self, .builtin method⟩ arguments line => some ⟨method, self, arguments, line⟩
  | cursorHasItems (.direct self) line => some ⟨.hasItems, self, [], line⟩
  | cursorCurrent (.direct self) line => some ⟨.get, self, [], line⟩
  | cursorAdvance (.direct self) line => some ⟨.move, self, [], line⟩
  | _ => none

/-- Whether a task gives a field a value itself. -/
def Task.setsField : Task → Bool
  | eval (.set ..) => true
  | _ => false

/-- Whether a task asks for a line of the input itself. -/
def Task.asksLine : Task → Bool
  | apply (.builtin .input) [] _ => true
  | _ => false

/-- A task that is an operation is a call, or what a loop does directly. -/
theorem Task.cases_of_operation? {task : Task} {method : BuiltinMethod} {self : InstanceId}
    {arguments : List Value} {line : Nat}
    (h : task.operation? = some ⟨method, self, arguments, line⟩) :
    task = .applyMethod ⟨self, .builtin method⟩ arguments line ∨
    (task = .cursorHasItems (.direct self) line ∧ method = .hasItems ∧ arguments = []) ∨
    (task = .cursorCurrent (.direct self) line ∧ method = .get ∧ arguments = []) ∨
    (task = .cursorAdvance (.direct self) line ∧ method = .move ∧ arguments = []) := by
  unfold operation? at h
  split at h <;> cases h
  · exact .inl rfl
  · exact .inr (.inl ⟨rfl, rfl, rfl⟩)
  · exact .inr (.inr (.inl ⟨rfl, rfl, rfl⟩))
  · exact .inr (.inr (.inr ⟨rfl, rfl, rfl⟩))

/-! ## 3. Scripts

The properties of §1 go over to all acts of a script, one lemma for each function that builds one.
What a task may do by itself is a hypothesis where it matters. -/

namespace Script

variable {α β : Type} {p : ⦃α : Type⦄ → Eval α → Prop}

/-- Whether all acts of a script, whatever the answers before them, have a property. -/
def Acts (p : ⦃α : Type⦄ → Eval α → Prop) {α : Type} : Script α → Prop
  | done _ => True
  | act action next => p action.run ∧ ∀ answer, (next answer).Acts p
  | call _ _ next => ∀ answer, (next answer).Acts p

/-- A script that goes on with another one has the acts of both. -/
theorem acts_bind {script : Script α} (h : script.Acts p) {f : α → Script β}
    (hf : ∀ value, (f value).Acts p) : (script >>= f).Acts p := by
  induction script with
  | done value => exact hf value
  | act action next ih => exact ⟨h.1, fun answer => ih answer (h.2 answer)⟩
  | call frame task next ih => exact fun answer => ih answer (h answer)

theorem acts_pure (value : α) : (pure value : Script α).Acts p := trivial

theorem acts_doing {action : Eval α} (h : p action) : (doing action).Acts p := ⟨h, fun _ => trivial⟩

/-- A call of a task is no act. -/
theorem acts_perform (task : Task) : (perform task).Acts p := fun _ => trivial

theorem acts_performIn (scope : ScopeId) (task : Task) : (performIn scope task).Acts p :=
  fun _ => trivial

/-- To look at the state is an act that only looks. -/
theorem acts_seeing (plain : Eval.Plain p) (view : State → α) : (seeing view).Acts p :=
  acts_doing (plain.bind plain.get fun _ => plain.pure _)

theorem acts_fail (plain : Eval.Plain p) (cause : RuntimeCause) (line : Nat) :
    (doing (Eval.fail cause line : Eval α)).Acts p :=
  acts_doing (plain.fail cause line)

/-- A new scope is an act that changes the state. -/
theorem acts_opening (laws : Eval.DeafLaws p) (origin : ScopeOrigin) (enclosing : ScopeId) :
    (opening origin enclosing).Acts p :=
  ⟨laws.newScope enclosing, fun _ => trivial⟩

theorem acts_openScope (laws : Eval.DeafLaws p) (origin : ScopeOrigin) :
    (openScope origin).Acts p :=
  acts_bind (acts_seeing laws.toPlain _) fun _ => acts_opening laws _ _

end Script

namespace Task

open Script

variable {p : ⦃α : Type⦄ → Eval α → Prop}

section DeafLaws

variable (laws : Eval.DeafLaws p)

include laws

/-- Binding a method opens a scope and defines `this` in it, if the method is a closure. -/
theorem acts_bindMethod (receiver : InstanceId) (method : Method) :
    (bindMethod receiver method).Acts p := by
  cases method with
  | builtin method => exact acts_pure _
  | declared closure =>
    exact acts_bind (acts_opening laws _ _) fun _ =>
      acts_bind (acts_doing (laws.defineIn _ _ _)) fun _ =>
        acts_bind (acts_doing laws.freshStamp) fun _ => acts_pure _

/-- A property is looked up, and bound if it is a method. -/
theorem acts_getProperty (id : InstanceId) (name : String) (line : Nat) :
    (getProperty id name line).Acts p := by
  refine acts_bind (acts_seeing laws.toPlain _) fun heap => ?_
  split
  · exact acts_pure _
  · split
    · exact acts_bind (acts_bindMethod laws _ _) fun _ => acts_pure _
    · exact acts_fail laws.toPlain _ _

theorem acts_superMethod (node : Id) (line : Nat) (method : Name) :
    (superMethod node line method).Acts p := by
  refine acts_bind (acts_seeing laws.toPlain _) fun state => ?_
  repeat' split
  all_goals
    first
    | exact acts_fail laws.toPlain _ _
    | exact acts_bind (acts_bindMethod laws _ _) fun _ => acts_pure _

/-- A class is put together from its methods, and then defined. -/
theorem acts_declareClass (name : Name) (superclass : Option Class) (methods : List FunDecl) :
    (declareClass name superclass methods).Acts p := by
  refine acts_bind (acts_doing (laws.define _ _)) fun _ => acts_bind ?_ fun scope =>
    acts_bind (acts_doing laws.freshStamp) fun _ =>
      acts_bind (acts_doing (laws.newMethods _ _ _)) fun _ => acts_doing (laws.define _ _)
  cases superclass with
  | none => exact acts_seeing laws.toPlain _
  | some superclass =>
    exact acts_bind (acts_openScope laws _) fun _ =>
      acts_bind (acts_doing (laws.defineIn _ _ _)) fun _ => acts_pure _

/-- The one kind of expression that sets a field is left to the hypothesis, and nothing else in an
expression does. -/
theorem acts_evalScript {e : Expr}
    (setField : (eval e).setsField →
      ∀ id name value, p (Eval.modifyHeap (·.setField id name value))) :
    (evalScript e).Acts p := by
  cases e with
  | literal value => exact acts_pure _
  | grouping inner => exact acts_perform _
  | unary op line operand =>
    exact acts_bind (acts_perform _) fun _ => acts_doing (laws.unary _ _ _)
  | binary op line left right =>
    exact acts_bind (acts_perform _) fun _ => acts_bind (acts_perform _) fun _ =>
      acts_doing (laws.binary _ _ _ _)
  | logical op line left right =>
    refine acts_bind (acts_perform _) fun _ => ?_
    split
    · exact acts_pure _
    · exact acts_perform _
  | «variable» v => exact acts_doing (laws.readVariable _ _ _)
  | assign target value =>
    exact acts_bind (acts_perform _) fun _ =>
      acts_bind (acts_doing (laws.writeVariable _ _)) fun _ => acts_pure _
  | call callee arguments line =>
    exact acts_bind (acts_perform _) fun _ => acts_bind (acts_perform _) fun _ => acts_perform _
  | get object property =>
    refine acts_bind (acts_perform _) fun _ => ?_
    split
    · exact acts_getProperty laws _ _ _
    · exact acts_fail laws.toPlain _ _
  | set object property value =>
    refine acts_bind (acts_perform _) fun _ => ?_
    split
    · exact acts_bind (acts_perform _) fun _ => acts_bind (acts_doing (setField rfl _ _ _))
        fun _ => acts_pure _
    · exact acts_fail laws.toPlain _ _
  | this id line => exact acts_doing (laws.readVariable _ _ _)
  | super id line method => exact acts_superMethod laws _ _ _
  | list line elements => exact acts_bind (acts_perform _) fun _ => acts_doing (laws.newList _)

/-- A call checks the callee and the number of arguments, and hands on. -/
theorem acts_callScript (callee : Value) (arguments : List Value) (line : Nat) :
    (callScript callee arguments line).Acts p := by
  unfold callScript
  split
  · split
    · exact fun _ => trivial
    · exact acts_fail laws.toPlain _ _
  · exact acts_fail laws.toPlain _ _

/-- A built-in function may be the one that asks for a line, which is left to the hypothesis. -/
theorem acts_applyScript {callable : Callable} {arguments : List Value} {line : Nat}
    (inputLine : (apply callable arguments line).asksLine → ∀ line, p (Eval.inputLine line)) :
    (applyScript callable arguments line).Acts p := by
  cases callable with
  | builtin function =>
    refine acts_doing (laws.callFunction ?_)
    rintro rfl rfl
    exact inputLine rfl line
  | closure closure => exact acts_perform _
  | bound method => exact acts_perform _
  | «class» cls =>
    refine acts_bind (acts_doing (laws.newInstance _)) fun id => ?_
    split
    · exact acts_bind (acts_bindMethod laws _ _) fun _ => acts_bind (acts_perform _) fun _ =>
        acts_pure _
    · exact acts_pure _

theorem acts_applyClosureScript (closure : Closure) (arguments : List Value) :
    (applyClosureScript closure arguments).Acts p :=
  acts_bind (acts_opening laws _ _) fun _ => acts_bind (acts_doing (laws.defineAll _ _ _)) fun _ =>
    acts_bind (acts_performIn _ _) fun _ => acts_doing (laws.callResult _ _)

/-- One case for each kind of statement. -/
theorem acts_execScript (s : Stmt) : (execScript s).Acts p := by
  cases s with
  | print line value =>
    exact acts_bind (acts_perform _) fun _ => acts_bind (acts_doing (laws.printValue _ _))
      fun _ => acts_pure _
  | expression value => exact acts_bind (acts_perform _) fun _ => acts_pure _
  | varDecl name initializer =>
    exact acts_bind (acts_perform _) fun _ => acts_bind (acts_doing (laws.define _ _))
      fun _ => acts_pure _
  | block body => exact acts_bind (acts_openScope laws _) fun _ => acts_performIn _ _
  | ifElse condition thenBranch elseBranch =>
    refine acts_bind (acts_perform _) fun _ => ?_
    split
    · exact acts_perform _
    · split
      · exact acts_perform _
      · exact acts_pure _
  | whileLoop condition body => exact acts_perform _
  | forEach line name iterable body =>
    refine acts_bind (acts_perform _) fun _ => ?_
    split
    · exact acts_bind (acts_perform _) fun _ => acts_bind (acts_doing (laws.cursorFor _))
        fun _ => acts_perform _
    · exact acts_fail laws.toPlain _ _
  | funDecl declaration =>
    exact acts_bind (acts_doing (laws.bind laws.get fun _ => laws.newClosure _ _ _)) fun _ =>
      acts_bind (acts_doing (laws.define _ _)) fun _ => acts_pure _
  | ret line value => exact acts_bind (acts_perform _) fun _ => acts_pure _
  | classDecl name superclass methods =>
    cases superclass with
    | none => exact acts_bind (acts_declareClass laws _ _ _) fun _ => acts_pure _
    | some v =>
      exact acts_bind (acts_perform _) fun _ =>
        acts_bind (acts_doing (laws.superclassOf _ _)) fun _ =>
          acts_bind (acts_declareClass laws _ _ _) fun _ => acts_pure _

/-- A turn of a loop, whether it steps the iterator itself or calls its methods. -/
theorem acts_forEachScript (cursor : Cursor) (line : Nat) (name : Name) (body : Stmt) :
    (forEachScript cursor line name body).Acts p := by
  refine acts_bind (acts_perform _) fun hasItems => ?_
  split
  · refine acts_bind (acts_openScope laws _) fun scope => acts_bind (acts_perform _) fun _ =>
      acts_bind (acts_doing (laws.defineIn _ _ _)) fun _ =>
        acts_bind (acts_performIn _ _) fun completion => ?_
    split
    · exact acts_bind (acts_perform _) fun _ => acts_perform _
    · exact acts_pure _
  · exact acts_pure _

/-- All acts of all scripts but operations have a property that the acts have which leave instances
and the input as they are, if giving a field a value has it, too, where that is done, and so has
asking for a line. -/
theorem acts_script_of_deaf {task : Task} (basic : task.operation? = none)
    (setField : task.setsField → ∀ id name value, p (Eval.modifyHeap (·.setField id name value)))
    (inputLine : task.asksLine → ∀ line, p (Eval.inputLine line)) : task.script.Acts p := by
  cases task with
  | eval e => exact acts_evalScript laws setField
  | evalAll es =>
    cases es with
    | nil => exact acts_pure _
    | cons e es =>
      exact acts_bind (acts_perform _) fun _ => acts_bind (acts_perform _) fun _ => acts_pure _
  | evalOptional e =>
    cases e with
    | none => exact acts_pure _
    | some e => exact acts_perform _
  | call callee arguments line => exact acts_callScript laws _ _ _
  | apply callable arguments line => exact acts_applyScript laws inputLine
  | applyMethod method arguments line =>
    obtain ⟨receiver, method⟩ := method
    cases method with
    | builtin method => cases basic
    | declared closure => exact acts_perform _
  | applyClosure closure arguments => exact acts_applyClosureScript laws _ _
  | invoke receiver name arguments line =>
    cases receiver with
    | inst id => exact acts_bind (acts_getProperty laws _ _ _) fun _ => acts_perform _
    | _ => exact acts_fail laws.toPlain _ _
  | exec s => exact acts_execScript laws s
  | execAll body =>
    cases body with
    | nil => exact acts_pure _
    | cons s rest =>
      refine acts_bind (acts_perform _) fun completion => ?_
      cases completion with
      | normal => exact acts_perform _
      | returned value => exact acts_pure _
  | whileLoop condition body =>
    refine acts_bind (acts_perform _) fun value => ?_
    split
    · refine acts_bind (acts_perform _) fun completion => ?_
      cases completion with
      | normal => exact acts_perform _
      | returned value => exact acts_pure _
    · exact acts_pure _
  | forEach cursor line name body => exact acts_forEachScript laws _ _ _ _
  | cursorHasItems cursor line =>
    cases cursor with
    | direct id => cases basic
    | protocol iterator => exact acts_bind (acts_perform _) fun _ => acts_pure _
  | cursorCurrent cursor line =>
    cases cursor with
    | direct id => cases basic
    | protocol iterator => exact acts_perform _
  | cursorAdvance cursor line =>
    cases cursor with
    | direct id => cases basic
    | protocol iterator => exact acts_bind (acts_perform _) fun _ => acts_pure _

end DeafLaws

/-- The same of a property that evaluations have whether or not they ask for lines. -/
theorem acts_script_of_still (laws : Eval.StillLaws p) {task : Task}
    (basic : task.operation? = none)
    (setField : task.setsField → ∀ id name value, p (Eval.modifyHeap (·.setField id name value))) :
    task.script.Acts p :=
  acts_script_of_deaf laws.toDeafLaws basic setField fun _ => laws.inputLine

/-- **All acts of all scripts but operations** have a property that the acts have which leave the
payloads of instances alone. -/
theorem acts_script_of_basic (laws : Eval.BasicLaws p) {task : Task}
    (basic : task.operation? = none) : task.script.Acts p :=
  acts_script_of_still laws.toStillLaws basic fun _ => laws.setField

/-- The only act of an operation is to call a method, or what a loop does directly. -/
theorem acts_operation (plain : Eval.Plain p)
    (callMethod : ∀ method self arguments line, p (Eval.callMethod method self arguments line))
    (iteratorAdvance : ∀ self line, p (Eval.iteratorAdvance self line)) {task : Task}
    {operation : Operation} (found : task.operation? = some operation) : task.script.Acts p := by
  rcases cases_of_operation? found with rfl | ⟨rfl, -, -⟩ | ⟨rfl, -, -⟩ | ⟨rfl, -, -⟩
  · exact acts_doing (callMethod _ _ _ _)
  · exact acts_doing (plain.iteratorHasItems _ _)
  · exact acts_doing (plain.iteratorCurrent _ _)
  · exact acts_doing (iteratorAdvance _ _)

/-- **All acts of all scripts** have a property that the acts have which change the state. -/
theorem acts_script (laws : Eval.Laws p) (task : Task) : task.script.Acts p := by
  cases found : task.operation? with
  | none => exact acts_script_of_basic laws.toBasicLaws found
  | some operation =>
    exact acts_operation laws.toPlain laws.callMethod laws.iteratorAdvance found

end Task

/-! ## 4. Tasks and programs

A task is run by running its script, so by induction on the fuel a property of all acts is one of
all runs. -/

section Run

variable {p : ⦃α : Type⦄ → Eval α → Prop} (laws : Eval.Laws p)
  (around : ∀ {α : Type} {x : Eval α}, p x → ∀ frame : Frame, p (frame.around x))

include laws around

/-- A script has what its acts and the tasks that it calls have. -/
theorem Script.Acts.run {α : Type} {script : Script α} (h : script.Acts p)
    {rec : (task : Task) → Eval task.Answer} (hrec : ∀ task, p (rec task)) :
    p (script.run rec) := by
  induction script with
  | done value => exact laws.pure value
  | act action next ih => exact laws.bind h.1 fun answer => ih answer (h.2 answer)
  | call frame task next ih =>
    exact laws.bind (around (hrec task) frame) fun answer => ih answer (h answer)

/-- **So every task has it**, with any fuel. -/
theorem Task.acts_run (fuel : Nat) (task : Task) : p (task.run fuel) := by
  induction fuel generalizing task with
  | zero =>
    rw [run_zero]
    exact laws.throw _ nofun
  | succ fuel ih =>
    rw [run_succ]
    exact (acts_script laws task).run laws around ih

/-- A whole program has it, too. -/
theorem Eval.acts_run (fuel : Nat) (program : List Stmt) : p (Eval.run fuel program) := by
  induction program with
  | nil => exact laws.pure _
  | cons s rest ih =>
    refine laws.bind (Task.acts_run laws around fuel (.exec s)) fun completion => ?_
    cases completion with
    | normal => exact ih
    | returned value => exact laws.pure _

end Run

end Lox
