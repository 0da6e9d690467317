/-
# Operations on heaps

A method of a built-in class reads the heap and nothing else of the state, and changes nothing else.
So what an operation answers, and the heap behind it, is a function of the heap
(`Operation.effect`), and carrying out the operation is to apply that function
(`Operation.run_eq`).  There are a few ways only in which it can change the heap, and if it fails it
does not change it (`Operation.does_effect`).
-/
import Lox.Proofs.Eval.Restore

namespace Lox

/-! ## 1. Effects -/

/-- What an operation answers, and the heap behind it. -/
abbrev Effect := Except Interrupt Value × Heap

namespace Heap

variable (heap : Heap)

/-- A failure, which leaves the heap as it is. -/
def fails (cause : BuiltinCause) (line : Nat) : Effect :=
  (.error (.error ⟨.builtin cause, line⟩), heap)

/-- An effect on an instance that holds a list. -/
def withStorage (self : InstanceId) (line : Nat) (effect : StorageId → Effect) : Effect :=
  match heap.payload? self with
  | some (.list storage) => effect storage
  | _ => heap.fails .uninitialized line

/-- An effect on an instance that holds a linked list. -/
def withChain (self : InstanceId) (line : Nat) (effect : Chain → Effect) : Effect :=
  match heap.payload? self with
  | some (.linkedList chain) => effect chain
  | _ => heap.fails .uninitialized line

/-- An effect on an instance that holds an iterator. -/
def withIterator (self : InstanceId) (line : Nat) (effect : Iterator → Effect) : Effect :=
  match heap.iterator? self with
  | some iterator => effect iterator
  | none => heap.fails .uninitialized line

/-- An effect at a place in a storage. -/
def withIndex (storage : StorageId) (line : Nat) (place : Value) (effect : Nat → Effect) : Effect :=
  match place with
  | .number x =>
    match (Decimal.Binary.ofFloat x).toNat? with
    | some i =>
      if i < heap.storageSize storage then effect i else heap.fails .indexOutOfRange line
    | none => heap.fails .indexOutOfRange line
  | value => heap.fails (.indexNotNumber value.type) line

/-- An effect that needs a bound of a range. -/
def withBound (line : Nat) (bound : Value) (effect : Float → Effect) : Effect :=
  match bound with
  | .number x => effect x
  | value => heap.fails (.boundNotNumber value.type) line

/-- The heap in which an instance holds another chain, with other nodes. -/
def setChain (self : InstanceId) (chain : Chain × Nodes Value) : Heap :=
  { heap with nodes := chain.2 }.setPayload self (.linkedList chain.1)

end Heap

/-- What an operation does to a heap. -/
def Operation.effect (operation : Operation) (heap : Heap) : Effect :=
  let ⟨method, self, arguments, line⟩ := operation
  match method, arguments with
  | .listInit, [] =>
    (.ok (.inst self), (heap.addStorage #[]).2.setPayload self (.list (heap.addStorage #[]).1))
  | .listAppend, [value] =>
    heap.withStorage self line fun storage => (.ok .nil, heap.pushItem storage value)
  | .listAt, [place] =>
    heap.withStorage self line fun storage => heap.withIndex storage line place fun i =>
      match heap.item? storage i with
      | some value => (.ok value, heap)
      | none => heap.fails .indexOutOfRange line
  | .listSet, [place, value] =>
    heap.withStorage self line fun storage => heap.withIndex storage line place fun i =>
      (.ok value, heap.setItem storage i value)
  | .listSize, [] =>
    heap.withStorage self line fun storage =>
      (.ok (.number (Float.ofNat (heap.storageSize storage))), heap)
  | .listIterate, [] =>
    heap.withStorage self line fun storage => (.ok (.inst heap.instances.size),
      (heap.add (.builtin .listIterator) (some (.iterator (.list storage 0)))).2)
  | .linkedInit, [] => (.ok (.inst self), heap.setPayload self (.linkedList .empty))
  | .linkedAppend, [value] =>
    heap.withChain self line fun chain =>
      (.ok .nil, heap.setChain self (heap.nodes.pushBack chain value))
  | .linkedPrepend, [value] =>
    heap.withChain self line fun chain =>
      (.ok .nil, heap.setChain self (heap.nodes.push chain value))
  | .linkedFirst, [] =>
    heap.withChain self line fun chain => (.ok ((heap.nodes.first? chain).getD .nil), heap)
  | .linkedSize, [] =>
    heap.withChain self line fun chain =>
      (.ok (.number (Float.ofNat (heap.nodes.length chain))), heap)
  | .linkedIsEmpty, [] => heap.withChain self line fun chain => (.ok (.boolean chain.isEmpty), heap)
  | .linkedIterate, [] =>
    heap.withChain self line fun chain => (.ok (.inst heap.instances.size),
      (heap.add (.builtin .linkedListIterator) (some (.iterator (.linkedList chain)))).2)
  | .rangeInit, [first, last, step] =>
    heap.withBound line first fun first => heap.withBound line last fun last =>
      heap.withBound line step fun step =>
        if step == 0 then heap.fails .zeroStep line
        else (.ok (.inst self), heap.setPayload self (.iterator (.range first last step)))
  | .rangeIterate, [] => (.ok (.inst self), heap)
  | .hasItems, [] =>
    heap.withIterator self line fun iterator => (.ok (.boolean (heap.hasItems iterator)), heap)
  | .get, [] =>
    heap.withIterator self line fun iterator =>
      match heap.current? iterator with
      | some value => (.ok value, heap)
      | none => heap.fails .exhausted line
  | .move, [] =>
    heap.withIterator self line fun iterator =>
      (.ok .nil, heap.setPayload self (.iterator (heap.advance iterator)))
  | _, _ => (.error .misuse, heap)

/-! ## 2. Operations are their effects -/

/-- An effect on the heap as the end of an evaluation. -/
def State.ending (s : State) (effect : Effect) : EStateM.Result Interrupt State Value :=
  match effect with
  | (.ok value, heap) => .ok value { s with heap := heap }
  | (.error interrupt, heap) => .error interrupt { s with heap := heap }

theorem State.heap_ending (s : State) (effect : Effect) :
    (endState (s.ending effect)).heap = effect.2 := by
  obtain ⟨answer, heap⟩ := effect
  cases answer <;> rfl

namespace Eval

variable {s : State} {line : Nat} {self : InstanceId}

/-- An evaluation that needs a list. -/
theorem listStorage_effect {f : StorageId → Eval Value} {effect : StorageId → Effect}
    (h : ∀ storage, f storage s = s.ending (effect storage)) :
    (listStorage self line >>= f) s = s.ending (s.heap.withStorage self line effect) := by
  change ((match s.heap.payload? self with
    | some (.list storage) => pure storage
    | _ => failBuiltin .uninitialized line : Eval StorageId) >>= f) s = _
  unfold Heap.withStorage
  split
  · exact h _
  · rfl

/-- One that needs a linked list. -/
theorem linkedChain_effect {f : Chain → Eval Value} {effect : Chain → Effect}
    (h : ∀ chain, f chain s = s.ending (effect chain)) :
    (linkedChain self line >>= f) s = s.ending (s.heap.withChain self line effect) := by
  change ((match s.heap.payload? self with
    | some (.linkedList chain) => pure chain
    | _ => failBuiltin .uninitialized line : Eval Chain) >>= f) s = _
  unfold Heap.withChain
  split
  · exact h _
  · rfl

/-- One that needs an iterator. -/
theorem heldIterator_effect {f : Iterator → Eval Value} {effect : Iterator → Effect}
    (h : ∀ iterator, f iterator s = s.ending (effect iterator)) :
    (heldIterator self line >>= f) s = s.ending (s.heap.withIterator self line effect) := by
  change ((match s.heap.iterator? self with
    | some iterator => pure iterator
    | none => failBuiltin .uninitialized line : Eval Iterator) >>= f) s = _
  unfold Heap.withIterator
  split
  · exact h _
  · rfl

/-- One that needs a place in a storage. -/
theorem index_effect {storage : StorageId} {place : Value} {f : Nat → Eval Value}
    {effect : Nat → Effect} (h : ∀ i, f i s = s.ending (effect i)) :
    (index storage line place >>= f) s = s.ending (s.heap.withIndex storage line place effect) := by
  cases place with
  | number x =>
    simp only [index, Heap.withIndex]
    cases (Decimal.Binary.ofFloat x).toNat? with
    | none => rfl
    | some i =>
      change ((if i < s.heap.storageSize storage then pure i
        else failBuiltin .indexOutOfRange line : Eval Nat) >>= f) s = _
      dsimp only
      split
      · exact h i
      · rfl
  | _ => rfl

/-- One that needs a bound of a range. -/
theorem rangeBound_effect {bound : Value} {f : Float → Eval Value} {effect : Float → Effect}
    (h : ∀ x, f x s = s.ending (effect x)) :
    (rangeBound line bound >>= f) s = s.ending (s.heap.withBound line bound effect) := by
  cases bound with
  | number x => exact h x
  | _ => rfl

end Eval

open Eval in
/-- **An operation is its effect on the heap.** -/
theorem Operation.run_eq (operation : Operation) (s : State) :
    operation.run s = s.ending (operation.effect s.heap) := by
  obtain ⟨method, self, arguments, line⟩ := operation
  unfold run callMethod
  dsimp only
  split
  · rfl
  · exact listStorage_effect fun _ => rfl
  · refine listStorage_effect fun storage => index_effect fun i => ?_
    change (match s.heap.item? storage i with
      | some value => pure value
      | none => failBuiltin .indexOutOfRange line : Eval Value) s = _
    cases s.heap.item? storage i <;> rfl
  · exact listStorage_effect fun _ => index_effect fun _ => rfl
  · exact listStorage_effect fun _ => rfl
  · exact listStorage_effect fun _ => rfl
  · rfl
  · rw [modifyChain, bind_assoc]
    exact linkedChain_effect fun _ => rfl
  · rw [modifyChain, bind_assoc]
    exact linkedChain_effect fun _ => rfl
  · exact linkedChain_effect fun _ => rfl
  · exact linkedChain_effect fun _ => rfl
  · exact linkedChain_effect fun _ => rfl
  · exact linkedChain_effect fun _ => rfl
  · refine rangeBound_effect fun _ => rangeBound_effect fun _ => rangeBound_effect fun _ => ?_
    split <;> rfl
  · rfl
  · rw [iteratorHasItems, bind_assoc]
    exact heldIterator_effect fun _ => rfl
  · refine heldIterator_effect fun iterator => ?_
    change (match s.heap.current? iterator with
      | some value => pure value
      | none => failBuiltin .exhausted line : Eval Value) s = _
    cases s.heap.current? iterator <;> rfl
  · rw [iteratorAdvance, bind_assoc]
    exact heldIterator_effect fun _ => rfl
  · rw [effect.eq_19] <;> first | assumption | rfl

theorem Operation.heap_run (operation : Operation) (s : State) :
    (endState (operation.run s)).heap = (operation.effect s.heap).2 := by
  rw [run_eq, State.heap_ending]

/-! ## 3. What an operation can do -/

/-- The ways in which an operation changes a heap, if it changes it. -/
inductive Operation.Changes (heap : Heap) : Operation → Heap → Prop where
  | same (operation : Operation) : Changes heap operation heap
  | initList (self : InstanceId) (line : Nat) :
      Changes heap ⟨.listInit, self, [], line⟩
        ((heap.addStorage #[]).2.setPayload self (.list (heap.addStorage #[]).1))
  | pushItem {self : InstanceId} {storage : StorageId}
      (held : heap.payload? self = some (.list storage)) (value : Value) (line : Nat) :
      Changes heap ⟨.listAppend, self, [value], line⟩ (heap.pushItem storage value)
  | setItem {self : InstanceId} {storage : StorageId}
      (held : heap.payload? self = some (.list storage)) (i : Nat) (place value : Value)
      (line : Nat) :
      Changes heap ⟨.listSet, self, [place, value], line⟩ (heap.setItem storage i value)
  | iterateList {self : InstanceId} {storage : StorageId}
      (held : heap.payload? self = some (.list storage)) (line : Nat) :
      Changes heap ⟨.listIterate, self, [], line⟩
        (heap.add (.builtin .listIterator) (some (.iterator (.list storage 0)))).2
  | initLinked (self : InstanceId) (line : Nat) :
      Changes heap ⟨.linkedInit, self, [], line⟩ (heap.setPayload self (.linkedList .empty))
  | pushBack {self : InstanceId} {chain : Chain}
      (held : heap.payload? self = some (.linkedList chain)) (value : Value) (line : Nat) :
      Changes heap ⟨.linkedAppend, self, [value], line⟩
        (heap.setChain self (heap.nodes.pushBack chain value))
  | push {self : InstanceId} {chain : Chain}
      (held : heap.payload? self = some (.linkedList chain)) (value : Value) (line : Nat) :
      Changes heap ⟨.linkedPrepend, self, [value], line⟩
        (heap.setChain self (heap.nodes.push chain value))
  | iterateLinked {self : InstanceId} {chain : Chain}
      (held : heap.payload? self = some (.linkedList chain)) (line : Nat) :
      Changes heap ⟨.linkedIterate, self, [], line⟩
        (heap.add (.builtin .linkedListIterator) (some (.iterator (.linkedList chain)))).2
  | initRange (self : InstanceId) (arguments : List Value) (first last step : Float) (line : Nat) :
      Changes heap ⟨.rangeInit, self, arguments, line⟩
        (heap.setPayload self (.iterator (.range first last step)))
  | advance {self : InstanceId} {iterator : Iterator}
      (held : heap.iterator? self = some iterator) (line : Nat) :
      Changes heap ⟨.move, self, [], line⟩
        (heap.setPayload self (.iterator (heap.advance iterator)))

/-- An effect is one of an operation, and a failure leaves the heap as it is. -/
structure Operation.Does (heap : Heap) (operation : Operation) (effect : Effect) : Prop where
  changes : operation.Changes heap effect.2
  fails : ∀ interrupt, effect.1 = .error interrupt → effect.2 = heap

namespace Operation.Does

variable {heap heap' : Heap} {operation : Operation} {self : InstanceId} {line : Nat}

theorem ok (changes : operation.Changes heap heap') (value : Value) :
    operation.Does heap (.ok value, heap') :=
  ⟨changes, nofun⟩

theorem error (interrupt : Interrupt) : operation.Does heap (.error interrupt, heap) :=
  ⟨.same operation, fun _ _ => rfl⟩

theorem withStorage {effect : StorageId → Effect}
    (h : ∀ storage, heap.payload? self = some (.list storage) →
      operation.Does heap (effect storage)) :
    operation.Does heap (heap.withStorage self line effect) := by
  unfold Heap.withStorage
  split
  · exact h _ ‹_›
  · exact error _

theorem withChain {effect : Chain → Effect}
    (h : ∀ chain, heap.payload? self = some (.linkedList chain) →
      operation.Does heap (effect chain)) :
    operation.Does heap (heap.withChain self line effect) := by
  unfold Heap.withChain
  split
  · exact h _ ‹_›
  · exact error _

theorem withIterator {effect : Iterator → Effect}
    (h : ∀ iterator, heap.iterator? self = some iterator →
      operation.Does heap (effect iterator)) :
    operation.Does heap (heap.withIterator self line effect) := by
  unfold Heap.withIterator
  split
  · exact h _ ‹_›
  · exact error _

theorem withIndex {storage : StorageId} {place : Value} {effect : Nat → Effect}
    (h : ∀ i, operation.Does heap (effect i)) :
    operation.Does heap (heap.withIndex storage line place effect) := by
  unfold Heap.withIndex
  split
  · split
    · split
      · exact h _
      · exact error _
    · exact error _
  · exact error _

theorem withBound {bound : Value} {effect : Float → Effect}
    (h : ∀ x, operation.Does heap (effect x)) :
    operation.Does heap (heap.withBound line bound effect) := by
  unfold Heap.withBound
  split
  · exact h _
  · exact error _

end Operation.Does

open Operation.Does in
/-- **An operation changes a heap in one of the ways**, and not at all if it fails. -/
theorem Operation.does_effect (operation : Operation) (heap : Heap) :
    operation.Does heap (operation.effect heap) := by
  obtain ⟨method, self, arguments, line⟩ := operation
  unfold effect
  dsimp only
  split
  · exact ok (.initList self line) _
  · exact withStorage fun _ held => ok (.pushItem held _ line) _
  · refine withStorage fun _ _ => withIndex fun _ => ?_
    split
    · exact ok (.same _) _
    · exact error _
  · exact withStorage fun _ held => withIndex fun i => ok (.setItem held i _ _ line) _
  · exact withStorage fun _ _ => ok (.same _) _
  · exact withStorage fun _ held => ok (.iterateList held line) _
  · exact ok (.initLinked self line) _
  · exact withChain fun _ held => ok (.pushBack held _ line) _
  · exact withChain fun _ held => ok (.push held _ line) _
  · exact withChain fun _ _ => ok (.same _) _
  · exact withChain fun _ _ => ok (.same _) _
  · exact withChain fun _ _ => ok (.same _) _
  · exact withChain fun _ held => ok (.iterateLinked held line) _
  · refine withBound fun _ => withBound fun _ => withBound fun _ => ?_
    split
    · exact error _
    · exact ok (.initRange self _ _ _ _ line) _
  · exact ok (.same _) _
  · exact withIterator fun _ _ => ok (.same _) _
  · refine withIterator fun _ _ => ?_
    split
    · exact ok (.same _) _
    · exact error _
  · exact withIterator fun _ held => ok (.advance held line) _
  · exact error _

/-- An operation that fails changes nothing. -/
theorem Operation.run_error {operation : Operation} {s s' : State} {interrupt : Interrupt}
    (h : operation.run s = .error interrupt s') : s' = s := by
  have fails := (operation.does_effect s.heap).fails
  rw [run_eq] at h
  revert h fails
  generalize operation.effect s.heap = effect
  obtain ⟨answer, heap⟩ := effect
  intro h fails
  cases answer with
  | ok value => cases h
  | error interrupt' =>
    obtain rfl : heap = s.heap := fails interrupt' rfl
    cases h
    rfl

end Lox
