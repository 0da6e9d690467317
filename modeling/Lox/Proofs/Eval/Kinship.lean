/-
# Evaluations that are kin

Two evaluations are kin (`Eval.Kin`) if from states that are kin they end in the same way, in states
that are kin again.  Everything that an evaluator does without looking at the scopes or at the
resolution does so on values and lines that are kin, whatever the scopes of the two states have to
do with each other: the operators, the changes of the heap, the console, and all functions and
methods that are built in.
-/
import Lox.Eval.Basic
import Lox.Proofs.Value.Kinship

namespace Lox

/-- What an evaluation finds variables by. -/
structure Environment where
  scopes : Scopes Value
  /-- The current scope. -/
  scope : ScopeId
  resolution : Resolution

/-- Where variables are found in a state. -/
def State.environment (s : State) : Environment := ⟨s.scopes, s.scope, s.resolution⟩

/-- What may stand for what in two evaluations. -/
structure RunKinship extends Kinship where
  environments : Environment → Environment → Prop
  lines : Nat → Nat → Prop
  /-- Why an evaluation fails. -/
  causes : RuntimeCause → RuntimeCause → Prop
  same_cause : ∀ cause, causes cause cause

instance : CoeOut RunKinship Kinship := ⟨RunKinship.toKinship⟩

variable {k : RunKinship}

/-! ## 1. States and ends

A kinship says what values, lines and environments correspond to each other.  States are kin if all
their other parts are the same. -/

/-- States that are kin. -/
structure State.Kin (k : RunKinship) (s s' : State) : Prop where
  environment : k.environments s.environment s'.environment
  depth : s.depth = s'.depth
  heap : s.heap.Kin k s'.heap
  stamp : s.stamp = s'.stamp
  output : s.output = s'.output
  input : s.input = s'.input
  clock : s.clock = s'.clock

/-- Interrupts that are kin. -/
inductive Interrupt.Kin (k : RunKinship) : Interrupt → Interrupt → Prop
  | error {cause cause' : RuntimeCause} {line line' : Nat} (causes : k.causes cause cause')
      (lines : k.lines line line') : Kin k (.error ⟨cause, line⟩) (.error ⟨cause', line'⟩)
  | starved : Kin k .starved .starved
  | outOfFuel : Kin k .outOfFuel .outOfFuel
  | misuse : Kin k .misuse .misuse

/-- Completions that are kin. -/
inductive Completion.Kin (k : Kinship) : Completion → Completion → Prop
  | normal : Kin k .normal .normal
  | returned {v v' : Value} (value : v.Kin k v') : Kin k (.returned v) (.returned v')

theorem Completion.Kin.value {k : Kinship} {c c' : Completion} :
    c.Kin k c' → c.value.Kin k c'.value
  | normal => .nil
  | returned value => value

/-- Cursors that are kin. -/
inductive Cursor.Kin (k : Kinship) : Cursor → Cursor → Prop
  | direct (id : InstanceId) : Kin k (.direct id) (.direct id)
  | protocol {v v' : Value} (iterator : v.Kin k v') : Kin k (.protocol v) (.protocol v')

/-- A larger kinship relates more cursors. -/
theorem Cursor.Kin.mono {k k' : Kinship} (le : k.Le k') {c c' : Cursor} : c.Kin k c' → c.Kin k' c'
  | direct id => .direct id
  | protocol iterator => .protocol (iterator.mono le)

/-- Ends of evaluations that are kin. -/
inductive EndKin {α β : Type} (k : RunKinship) (R : α → β → Prop) :
    EStateM.Result Interrupt State α → EStateM.Result Interrupt State β → Prop
  | ok {v : α} {v' : β} {s s' : State} (value : R v v') (state : s.Kin k s') :
      EndKin k R (.ok v s) (.ok v' s')
  | error {i i' : Interrupt} {s s' : State} (interrupt : i.Kin k i') (state : s.Kin k s') :
      EndKin k R (.error i s) (.error i' s')

namespace Eval

variable {α β γ δ : Type} {R : α → β → Prop} {S : γ → δ → Prop}

/-- Evaluations that end alike from states that are kin. -/
def Kin (k : RunKinship) (R : α → β → Prop) (x : Eval α) (y : Eval β) : Prop :=
  ∀ s s' : State, s.Kin k s' → EndKin k R (x s) (y s')

namespace Kin

variable {x : Eval α} {y : Eval β}

theorem pure {v : α} {v' : β} (h : R v v') : Kin k R (Pure.pure v) (Pure.pure v') :=
  fun _ _ kin => .ok h kin

/-- Kin first, and kin on results that are kin. -/
theorem bind {f : α → Eval γ} {g : β → Eval δ} (h : Kin k R x y)
    (hf : ∀ v v', R v v' → Kin k S (f v) (g v')) : Kin k S (x >>= f) (y >>= g) := by
  intro s s' kin
  have first := h s s' kin
  change EndKin k S (EStateM.bind x f s) (EStateM.bind y g s')
  unfold EStateM.bind
  cases hx : x s with
  | ok v t =>
    cases hy : y s' with
    | ok v' t' =>
      rw [hx, hy] at first
      cases first with
      | ok value state => exact hf v v' value t t' state
    | error i t' =>
      rw [hx, hy] at first
      cases first
  | error i t =>
    cases hy : y s' with
    | ok v' t' =>
      rw [hx, hy] at first
      cases first
    | error i' t' =>
      rw [hx, hy] at first
      cases first with
      | error interrupt state => exact .error interrupt state

theorem map {f : α → γ} {g : β → δ} (h : Kin k R x y) (hf : ∀ v v', R v v' → S (f v) (g v')) :
    Kin k S (f <$> x) (g <$> y) := by
  rw [← bind_pure_comp, ← bind_pure_comp]
  exact h.bind fun v v' value => .pure (hf v v' value)

theorem get : Kin k (State.Kin k) MonadState.get MonadState.get := fun _ _ kin => .ok kin kin

theorem throw {i i' : Interrupt} (h : i.Kin k i') :
    Kin k R (MonadExcept.throw i : Eval α) (MonadExcept.throw i' : Eval β) :=
  fun _ _ kin => .error h kin

theorem fail (cause : RuntimeCause) {line line' : Nat} (lines : k.lines line line') :
    Kin k R (Eval.fail cause line : Eval α) (Eval.fail cause line' : Eval β) :=
  .throw (.error (k.same_cause cause) lines)

theorem failBuiltin (cause : BuiltinCause) {line line' : Nat} (lines : k.lines line line') :
    Kin k R (Eval.failBuiltin cause line : Eval α) (Eval.failBuiltin cause line' : Eval β) :=
  .fail _ lines

/-- Updates are kin if they take states that are kin to states that are kin. -/
theorem modifyGet {f : State → α × State} {g : State → β × State}
    (h : ∀ s s' : State, s.Kin k s' → R (f s).1 (g s').1 ∧ (f s).2.Kin k (g s').2) :
    Kin k R (MonadStateOf.modifyGet f) (MonadStateOf.modifyGet g) :=
  fun s s' kin => .ok (h s s' kin).1 (h s s' kin).2

/-- As for `modifyGet`, where nothing is handed on. -/
theorem modify {f g : State → State} (h : ∀ s s' : State, s.Kin k s' → (f s).Kin k (g s')) :
    Kin k (· = ·) (MonadStateOf.modifyGet fun s => ((), f s) : Eval Unit)
      (MonadStateOf.modifyGet fun s => ((), g s)) :=
  .modifyGet fun s s' kin => ⟨rfl, h s s' kin⟩

/-- A choice that is the same for both. -/
theorem ite {p q : Prop} [Decidable p] [Decidable q] (same : p ↔ q) {x x' : Eval α} {y y' : Eval β}
    (h : Kin k R x y) (h' : Kin k R x' y') :
    Kin k R (if p then x else x') (if q then y else y') := by
  by_cases hp : p
  · rw [if_pos hp, if_pos (same.1 hp)]
    exact h
  · rw [if_neg hp, if_neg fun hq => hp (same.2 hq)]
    exact h'

/-- The next stamp is the same in both. -/
theorem freshStamp : Kin k (· = ·) Eval.freshStamp Eval.freshStamp :=
  .modifyGet fun _ _ kin => ⟨kin.stamp, { kin with stamp := congrArg (· + 1) kin.stamp }⟩

/-! ## 2. Instances and the console

Instances and storages have the same numbers in both states, since they are numbered in the order in
which they are made. -/

/-- The next instance is the same in both, and starts without fields. -/
theorem newInstance {cls cls' : Class} (classes : cls.Kin k cls') (payload : Option Payload) :
    Kin k (· = ·) (Eval.newInstance cls payload) (Eval.newInstance cls' payload) :=
  .modifyGet fun _ _ kin =>
    have added := kin.heap.add classes payload
    ⟨added.1, { kin with heap := added.2 }⟩

/-- Changes of the heap are kin if they keep heaps kin. -/
theorem modifyHeap {change change' : Heap → Heap}
    (h : ∀ heap heap' : Heap, heap.Kin k heap' → (change heap).Kin k (change' heap')) :
    Kin k (· = ·) (Eval.modifyHeap change) (Eval.modifyHeap change') :=
  .modify fun _ _ kin => { kin with heap := h _ _ kin.heap }

/-- The next storage is the same in both. -/
theorem newStorage {items items' : Array Value} (h : ArrayRel (Value.Kin k) items items') :
    Kin k (· = ·) (Eval.newStorage items) (Eval.newStorage items') :=
  .modifyGet fun _ _ kin =>
    have added := kin.heap.addStorage h
    ⟨added.1, { kin with heap := added.2 }⟩

theorem newList {items items' : List Value} (h : List.Forall₂ (Value.Kin k) items items') :
    Kin k (Value.Kin k) (Eval.newList items) (Eval.newList items') := by
  refine .bind (.newStorage (.ofList h)) ?_
  rintro storage _ rfl
  refine .map (.newInstance (.builtin _) _) ?_
  rintro id _ rfl
  exact .inst id

/-- Values that are kin have the same text, so what has been printed stays the same. -/
theorem printValue {v v' : Value} (value : v.Kin k v') {line line' : Nat}
    (lines : k.lines line line') :
    Kin k (· = ·) (Eval.printValue v line) (Eval.printValue v' line') := by
  intro s s' kin
  unfold Eval.printValue
  dsimp only
  rw [kin.heap.text_eq value, kin.output]
  split
  · exact .ok rfl { kin with output := rfl }
  · exact .error (.error (k.same_cause _) lines) { kin with output := rfl }

/-- The input is the same in both. -/
theorem readLine : Kin k (· = ·) Eval.readLine Eval.readLine :=
  .modifyGet fun s s' kin => by
    rw [kin.input]
    exact ⟨rfl, { kin with input := rfl }⟩

theorem readClock : Kin k (· = ·) Eval.readClock Eval.readClock :=
  .modifyGet fun _ _ kin => ⟨kin.clock, { kin with clock := congrArg (· + 1) kin.clock }⟩

/-! ## 3. Operators, classes and cursors

What these look at is the same for values that are kin. -/

variable {line line' : Nat}

/-- An operator sees whether its operand is a number, and which. -/
theorem unary (op : UnaryOp) (lines : k.lines line line') {v v' : Value} (operand : v.Kin k v') :
    Kin k (Value.Kin k) (Eval.unary op line v) (Eval.unary op line' v') := by
  cases op with
  | negate =>
    cases operand with
    | number x => exact .pure (.number _)
    | _ => exact .fail _ lines
  | not =>
    simp only [Eval.unary]
    rw [operand.isTruthy_eq]
    exact .pure (.boolean _)

theorem arithmetic (op : BinaryOp) (lines : k.lines line line') (x y : Float) :
    Kin k (Value.Kin k) (Eval.arithmetic op line x y) (Eval.arithmetic op line' x y) := by
  cases op with
  | divide => exact .ite Iff.rfl (.fail _ lines) (.pure (.number _))
  | subtract | multiply | add => exact .pure (.number _)
  | _ => exact .pure (.boolean _)

/-- Operators see numbers and texts, and whether two values are equal.  All of these are the same
for values that are kin. -/
theorem binary (op : BinaryOp) (lines : k.lines line line') {v v' w w' : Value}
    (left : v.Kin k v') (right : w.Kin k w') :
    Kin k (Value.Kin k) (Eval.binary op line v w) (Eval.binary op line' v' w') := by
  cases op with
  | equal | notEqual =>
    simp only [Eval.binary]
    rw [left.equals_eq right]
    exact .pure (.boolean _)
  | add =>
    cases left with
    | number x =>
      cases right with
      | number y => exact .pure (.number _)
      | _ => exact .fail _ lines
    | string s =>
      cases right with
      | string t => exact .pure (.string _)
      | _ => exact .fail _ lines
    | _ => exact .fail _ lines
  | _ =>
    cases left with
    | number x =>
      cases right with
      | number y =>
        simp only [Eval.binary]
        exact .arithmetic _ lines x y
      | _ => exact .fail _ lines
    | _ => exact .fail _ lines

theorem decides_eq {k : Kinship} (op : LogicalOp) {v v' : Value} (left : v.Kin k v') :
    decides op v = decides op v' := by
  unfold decides
  rw [left.isTruthy_eq]

/-- A value that is kin to a class is a class. -/
theorem superclassOf {name name' : Name} (lines : k.lines name.line name'.line) {v v' : Value}
    (value : v.Kin k v') :
    Kin k (Class.Kin k) (Eval.superclassOf name v) (Eval.superclassOf name' v') := by
  cases value with
  | callable callable =>
    cases callable with
    | «class» classes => exact .pure classes
    | _ => exact .fail _ lines
  | _ => exact .fail _ lines

/-- Which kind of iterator an instance holds is the same in both heaps. -/
theorem cursorFor {v v' : Value} (iterator : v.Kin k v') :
    Kin k (Cursor.Kin k) (Eval.cursorFor v) (Eval.cursorFor v') := by
  cases iterator with
  | inst id =>
    refine .bind .get fun s s' kin => ?_
    refine .ite ?_ (.pure (.direct id)) (.pure (.protocol (.inst id)))
    rw [kin.heap.iterator?_eq]
    rcases rel_cases (kin.heap.class? id) with
      ⟨left, right⟩ | ⟨cls, cls', left, right, classes⟩ <;> rw [left, right]
    rw [Option.any_some, Option.any_some, classes.isBuiltin_eq]
  | nil => exact .pure (.protocol .nil)
  | boolean value => exact .pure (.protocol (.boolean value))
  | number value => exact .pure (.protocol (.number value))
  | string value => exact .pure (.protocol (.string value))
  | callable callable => exact .pure (.protocol (.callable callable))

/-! ## 4. Built-in functions and methods

Nothing built in looks at a scope, so all of this holds for every kinship. -/

theorem numberArgument (function : BuiltinFunction) (lines : k.lines line line') {v v' : Value}
    (value : v.Kin k v') :
    Kin k (· = ·) (Eval.numberArgument function line v)
      (Eval.numberArgument function line' v') := by
  cases value with
  | number x => exact .pure rfl
  | _ => exact .failBuiltin _ lines

theorem inputLine (lines : k.lines line line') :
    Kin k (Value.Kin k) (Eval.inputLine line) (Eval.inputLine line') := by
  refine .bind .readLine ?_
  rintro found _ rfl
  cases found with
  | line text => exact .pure (.string _)
  | ended => exact .pure .nil
  | invalid => exact .failBuiltin _ lines
  | starved => exact .throw .starved

/-- The text of a value is looked up in heaps that are kin. -/
theorem toText (lines : k.lines line line') {v v' : Value} (value : v.Kin k v') :
    Kin k (Value.Kin k) (Eval.toText line v) (Eval.toText line' v') := by
  cases value with
  | number x => exact .pure (.string _)
  | string s => exact .pure (.string _)
  | _ => exact .failBuiltin _ lines

theorem toNumber (lines : k.lines line line') {v v' : Value} (value : v.Kin k v') :
    Kin k (Value.Kin k) (Eval.toNumber line v) (Eval.toNumber line' v') := by
  cases value with
  | number x => exact .pure (.number _)
  | string s =>
    simp only [Eval.toNumber]
    split
    · exact .pure (.number _)
    · exact .failBuiltin _ lines
  | _ => exact .failBuiltin _ lines

/-- One case for each built-in function. -/
theorem callFunction (function : BuiltinFunction) {values values' : List Value}
    (kins : List.Forall₂ (Value.Kin k) values values') (lines : k.lines line line') :
    Kin k (Value.Kin k) (Eval.callFunction function values line)
      (Eval.callFunction function values' line') := by
  have number : ∀ {f : Float → Float} {v v' : Value}, v.Kin k v' →
      Kin k (Value.Kin k)
        (do return .number (f (← Eval.numberArgument function line v)))
        (do return .number (f (← Eval.numberArgument function line' v'))) := by
    intro f v v' value
    refine .bind (.numberArgument _ lines value) ?_
    rintro x _ rfl
    exact .pure (.number _)
  cases kins with
  | nil =>
    cases function with
    | clock =>
      refine .bind .readClock ?_
      rintro time _ rfl
      exact .pure (.number _)
    | input => exact .inputLine lines
    | _ => exact .throw .misuse
  | cons value rest =>
    cases rest with
    | cons => cases function <;> exact .throw .misuse
    | nil =>
      cases function with
      | str => exact .toText lines value
      | float => exact .toNumber lines value
      | floor | ceil | sin | cos | exp => exact number value
      | log =>
        refine .bind (.numberArgument _ lines value) ?_
        rintro x _ rfl
        exact .ite Iff.rfl (.failBuiltin _ lines) (.pure (.number _))
      | clock | input => exact .throw .misuse

/-- Instances are the same, and so are their payloads. -/
theorem listStorage (self : InstanceId) (lines : k.lines line line') :
    Kin k (· = ·) (Eval.listStorage self line) (Eval.listStorage self line') := by
  refine .bind .get fun s s' kin => ?_
  rw [kin.heap.payload?_eq]
  split
  · exact .pure rfl
  · exact .failBuiltin _ lines

theorem linkedChain (self : InstanceId) (lines : k.lines line line') :
    Kin k (· = ·) (Eval.linkedChain self line) (Eval.linkedChain self line') := by
  refine .bind .get fun s s' kin => ?_
  rw [kin.heap.payload?_eq]
  split
  · exact .pure rfl
  · exact .failBuiltin _ lines

theorem heldIterator (self : InstanceId) (lines : k.lines line line') :
    Kin k (· = ·) (Eval.heldIterator self line) (Eval.heldIterator self line') := by
  refine .bind .get fun s s' kin => ?_
  rw [kin.heap.iterator?_eq]
  split
  · exact .pure rfl
  · exact .failBuiltin _ lines

/-- Storages have the same size in both. -/
theorem index (storage : StorageId) (lines : k.lines line line') {v v' : Value}
    (value : v.Kin k v') :
    Kin k (· = ·) (Eval.index storage line v) (Eval.index storage line' v') := by
  cases value with
  | number x =>
    simp only [Eval.index]
    split
    · refine .bind .get fun s s' kin => ?_
      rw [kin.heap.storageSize_eq]
      exact .ite Iff.rfl (.pure rfl) (.failBuiltin _ lines)
    · exact .failBuiltin _ lines
  | _ => exact .failBuiltin _ lines

theorem rangeBound (lines : k.lines line line') {v v' : Value} (value : v.Kin k v') :
    Kin k (· = ·) (Eval.rangeBound line v) (Eval.rangeBound line' v') := by
  cases value with
  | number x => exact .pure rfl
  | _ => exact .failBuiltin _ lines

/-- The chains are changed in the same way, and the nodes hold values that are kin. -/
theorem modifyChain (self : InstanceId) (lines : k.lines line line')
    {change change' : Nodes Value → Chain → Chain × Nodes Value}
    (h : ∀ nodes nodes' chain, nodes.Rel (Value.Kin k) nodes' →
      (change nodes chain).1 = (change' nodes' chain).1 ∧
        (change nodes chain).2.Rel (Value.Kin k) (change' nodes' chain).2) :
    Kin k (· = ·) (Eval.modifyChain self line change) (Eval.modifyChain self line' change') := by
  refine .bind (.linkedChain self lines) ?_
  rintro chain _ rfl
  refine .modifyHeap fun heap heap' kin => ?_
  obtain ⟨chains, nodes⟩ := h _ _ chain kin.nodes
  dsimp only
  rw [chains]
  exact (kin.setNodes nodes).setPayload _ _

theorem iteratorHasItems (self : InstanceId) (lines : k.lines line line') :
    Kin k (· = ·) (Eval.iteratorHasItems self line) (Eval.iteratorHasItems self line') := by
  refine .bind (.heldIterator self lines) ?_
  rintro iterator _ rfl
  exact .map .get fun _ _ kin => kin.heap.hasItems_eq iterator

/-- The iterators are the same, and the items at hand are kin. -/
theorem iteratorCurrent (self : InstanceId) (lines : k.lines line line') :
    Kin k (Value.Kin k) (Eval.iteratorCurrent self line)
      (Eval.iteratorCurrent self line') := by
  refine .bind (.heldIterator self lines) ?_
  rintro iterator _ rfl
  refine .bind .get fun s s' kin => ?_
  rcases rel_cases (kin.heap.current? iterator) with
    ⟨left, right⟩ | ⟨v, v', left, right, value⟩ <;> rw [left, right]
  · exact .failBuiltin _ lines
  · exact .pure value

theorem iteratorAdvance (self : InstanceId) (lines : k.lines line line') :
    Kin k (· = ·) (Eval.iteratorAdvance self line) (Eval.iteratorAdvance self line') := by
  refine .bind (.heldIterator self lines) ?_
  rintro iterator _ rfl
  refine .modifyHeap fun heap heap' kin => ?_
  rw [kin.advance_eq]
  exact kin.setPayload _ _

theorem newIterator (kind : BuiltinClass) (iterator : Iterator) :
    Kin k (Value.Kin k) (Eval.newIterator kind iterator) (Eval.newIterator kind iterator) := by
  refine .map (.newInstance (.builtin kind) _) ?_
  rintro id _ rfl
  exact .inst id

/-! The methods of built-in classes that look into what they are given or hold. -/

/-- The first node of both chains, if there is one. -/
theorem linkedFirst (self : InstanceId) (lines : k.lines line line') :
    Kin k (Value.Kin k) (Eval.callMethod .linkedFirst self [] line)
      (Eval.callMethod .linkedFirst self [] line') := by
  refine .bind (.linkedChain self lines) ?_
  rintro chain _ rfl
  refine .bind .get fun s s' kin => .pure ?_
  rcases rel_cases (kin.heap.nodes.first? chain) with
    ⟨left, right⟩ | ⟨v, v', left, right, value⟩ <;> rw [left, right]
  · exact .nil
  · exact value

/-- The same index is in range in both, and the items there are kin. -/
theorem listAt (self : InstanceId) {v v' : Value} (position : v.Kin k v')
    (lines : k.lines line line') :
    Kin k (Value.Kin k) (Eval.callMethod .listAt self [v] line)
      (Eval.callMethod .listAt self [v'] line') := by
  refine .bind (.listStorage self lines) ?_
  rintro storage _ rfl
  refine .bind (.index storage lines position) ?_
  rintro i _ rfl
  refine .bind .get fun s s' kin => ?_
  rcases rel_cases (kin.heap.item? storage i) with
    ⟨left, right⟩ | ⟨item, item', left, right, items⟩ <;> rw [left, right]
  · exact .failBuiltin _ lines
  · exact .pure items

/-- Storing values that are kin at one index. -/
theorem listSet (self : InstanceId) {v v' u u' : Value} (position : v.Kin k v')
    (value : u.Kin k u') (lines : k.lines line line') :
    Kin k (Value.Kin k) (Eval.callMethod .listSet self [v, u] line)
      (Eval.callMethod .listSet self [v', u'] line') := by
  refine .bind (.listStorage self lines) ?_
  rintro storage _ rfl
  refine .bind (.index storage lines position) ?_
  rintro i _ rfl
  exact .bind (.modifyHeap fun _ _ kin => kin.setItem _ _ value) fun _ _ _ => .pure value

/-- The bounds are numbers, and the same numbers in both. -/
theorem rangeInit (self : InstanceId) {a a' b b' c c' : Value} (first : a.Kin k a')
    (last : b.Kin k b') (step : c.Kin k c') (lines : k.lines line line') :
    Kin k (Value.Kin k) (Eval.callMethod .rangeInit self [a, b, c] line)
      (Eval.callMethod .rangeInit self [a', b', c'] line') := by
  refine .bind (.rangeBound lines first) ?_
  rintro first _ rfl
  refine .bind (.rangeBound lines last) ?_
  rintro last _ rfl
  refine .bind (.rangeBound lines step) ?_
  rintro step _ rfl
  exact .ite Iff.rfl (.failBuiltin _ lines)
    (.bind (.modifyHeap fun _ _ kin => kin.setPayload _ _) fun _ _ _ => .pure (.inst self))

/-- One case for each built-in method.  The larger ones are the lemmas above. -/
theorem callMethod (method : BuiltinMethod) (self : InstanceId) {values values' : List Value}
    (kins : List.Forall₂ (Value.Kin k) values values') (lines : k.lines line line') :
    Kin k (Value.Kin k) (Eval.callMethod method self values line)
      (Eval.callMethod method self values' line') := by
  cases kins with
  | nil =>
    cases method with
    | listInit =>
      refine .bind (.newStorage .empty) ?_
      rintro storage _ rfl
      exact .bind (.modifyHeap fun _ _ kin => kin.setPayload _ _) fun _ _ _ => .pure (.inst self)
    | listSize =>
      refine .bind (.listStorage self lines) ?_
      rintro storage _ rfl
      refine .bind .get fun s s' kin => ?_
      rw [kin.heap.storageSize_eq]
      exact .pure (.number _)
    | listIterate =>
      refine .bind (.listStorage self lines) ?_
      rintro storage _ rfl
      exact .newIterator _ _
    | linkedInit =>
      exact .bind (.modifyHeap fun _ _ kin => kin.setPayload _ _) fun _ _ _ => .pure (.inst self)
    | linkedFirst => exact .linkedFirst self lines
    | linkedSize =>
      refine .bind (.linkedChain self lines) ?_
      rintro chain _ rfl
      refine .bind .get fun s s' kin => ?_
      rw [kin.heap.nodes.length_eq]
      exact .pure (.number _)
    | linkedIsEmpty =>
      refine .bind (.linkedChain self lines) ?_
      rintro chain _ rfl
      exact .pure (.boolean _)
    | linkedIterate =>
      refine .bind (.linkedChain self lines) ?_
      rintro chain _ rfl
      exact .newIterator _ _
    | rangeIterate => exact .pure (.inst self)
    | hasItems =>
      refine .bind (.iteratorHasItems self lines) ?_
      rintro more _ rfl
      exact .pure (.boolean _)
    | get => exact .iteratorCurrent self lines
    | move => exact .bind (.iteratorAdvance self lines) fun _ _ _ => .pure .nil
    | _ => exact .throw .misuse
  | cons value rest =>
    cases rest with
    | nil =>
      cases method with
      | listAppend =>
        refine .bind (.listStorage self lines) ?_
        rintro storage _ rfl
        exact .bind (.modifyHeap fun _ _ kin => kin.pushItem _ value) fun _ _ _ => .pure .nil
      | listAt => exact .listAt self value lines
      | linkedAppend =>
        exact .bind (.modifyChain self lines fun _ _ chain nodes => nodes.pushBack chain value)
          fun _ _ _ => .pure .nil
      | linkedPrepend =>
        exact .bind (.modifyChain self lines fun _ _ chain nodes => nodes.push chain value)
          fun _ _ _ => .pure .nil
      | _ => exact .throw .misuse
    | cons value' rest =>
      cases rest with
      | nil =>
        cases method with
        | listSet => exact .listSet self value value' lines
        | _ => exact .throw .misuse
      | cons value'' rest =>
        cases rest with
        | nil =>
          cases method with
          | rangeInit => exact .rangeInit self value value' value'' lines
          | _ => exact .throw .misuse
        | cons => cases method <;> exact .throw .misuse

end Kin

end Eval

end Lox

