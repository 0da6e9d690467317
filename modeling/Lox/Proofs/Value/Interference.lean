/-
# Iterators in between

Two heaps agree but for some iterators if they differ in nothing but where those iterators stand
(`Heap.Agree`).  An operation on any other instance answers the same in both, and leaves heaps that
agree again (`Heap.Agree.effect`); asking one of those iterators, or stepping it, leaves a heap that
agrees with the other one (`Heap.Agree.step`).  So the operations on some iterators can be left out
of a row of operations without any difference to the others (`Heap.Agree.carryOut`).
-/
import Lox.Proofs.Value.Sequence

namespace Lox

/-! ## 1. Rows of operations

Operations are carried out whether or not one before has failed, as programs can catch nothing but
go on in the next text. -/

/-- How an evaluation answers, its state apart. -/
def answerOf : EStateM.Result Interrupt State Value → Except Interrupt Value
  | .ok value _ => .ok value
  | .error interrupt _ => .error interrupt

namespace Operation

/-- Operations that have been carried out one after the other, each with what it has answered, and
the state in the end. -/
structure Record where
  answers : List (Operation × Except Interrupt Value)
  state : State

/-- Carries out some operations, whether one fails or not. -/
def carryOut : List Operation → State → Record
  | [], s => ⟨[], s⟩
  | operation :: rest, s =>
    let later := carryOut rest (endState (operation.run s))
    ⟨(operation, answerOf (operation.run s)) :: later.answers, later.state⟩

/-- The next instance to be made behind an operation. -/
def nextAfter (operation : Operation) (next : InstanceId) : InstanceId :=
  match operation.method, operation.arguments with
  | .listIterate, [] | .linkedIterate, [] => next + 1
  | _, _ => next

/-- The same on a plain sequence: what each operation answers. -/
def answersOnSequence : List Operation → (next : InstanceId) → List Value →
    List (Operation × Except Interrupt Value)
  | [], _, _ => []
  | operation :: rest, next, items =>
    (operation, (operation.onSequence next items).1) ::
      answersOnSequence rest (operation.nextAfter next) (operation.onSequence next items).2

/-- An operation is one of those by which a collection is gone along. -/
def Steps (operation : Operation) : Prop :=
  operation.method ∈ BuiltinClass.listIterator.methods

/-- What an operation answers can be read off the heap. -/
theorem answerOf_run (operation : Operation) (s : State) :
    answerOf (operation.run s) = (operation.effect s.heap).1 := by
  rw [run_eq]
  generalize operation.effect s.heap = effect
  obtain ⟨answer, heap⟩ := effect
  cases answer <;> rfl

/-- An operation that goes along a collection changes nothing but where an iterator stands. -/
theorem Steps.changes {operation : Operation} (steps : operation.Steps) {heap heap' : Heap}
    (changes : operation.Changes heap heap') :
    heap' = heap ∨ ∃ iterator, heap.iterator? operation.self = some iterator ∧
      heap' = heap.setPayload operation.self (.iterator (heap.advance iterator)) := by
  cases changes with
  | same => exact .inl rfl
  | advance held line => exact .inr ⟨_, held, rfl⟩
  | _ => exact absurd steps (by simp [Steps, BuiltinClass.methods])

end Operation

/-! ## 2. Heaps that agree but for some iterators

Everything is the same but the payload of some instances, which is an iterator in both heaps. -/

/-- Two heaps differ in nothing but where some iterators stand. -/
structure Heap.Agree (free : InstanceId → Prop) (heap heap' : Heap) : Prop where
  storages : heap.storages = heap'.storages
  nodes : heap.nodes = heap'.nodes
  size : heap.instances.size = heap'.instances.size
  classes : ∀ id, heap.class? id = heap'.class? id
  fields : ∀ id name, heap.field? id name = heap'.field? id name
  payloads : ∀ id, heap.payload? id = heap'.payload? id ∨ free id ∧
    (∃ iterator, heap.payload? id = some (.iterator iterator)) ∧
    ∃ iterator, heap'.payload? id = some (.iterator iterator)

namespace Heap.Agree

variable {free : InstanceId → Prop} {heap heap' : Heap}

theorem refl (heap : Heap) : heap.Agree free heap :=
  ⟨rfl, rfl, rfl, fun _ => rfl, fun _ _ => rfl, fun _ => .inl rfl⟩

/-- All instances but the iterators in question have the same payload. -/
theorem payload?_eq (h : heap.Agree free heap') {id : InstanceId} (kept : ¬ free id) :
    heap.payload? id = heap'.payload? id :=
  (h.payloads id).resolve_right fun differ => kept differ.1

/-- All other iterators stand at the same place. -/
theorem iterator?_eq (h : heap.Agree free heap') {id : InstanceId} (kept : ¬ free id) :
    heap.iterator? id = heap'.iterator? id := by
  rw [iterator?, iterator?, h.payload?_eq kept]

/-- Collections hold the same, be they among the instances that are kept or not. -/
theorem listing?_eq (h : heap.Agree free heap') (id : InstanceId) :
    heap.listing? id = heap'.listing? id := by
  unfold listing?
  rcases h.payloads id with same | ⟨-, ⟨_, found⟩, ⟨_, found'⟩⟩
  · rw [same, h.storages, h.nodes]
  · rw [found, found']

/-- Where an iterator stands does not show in any text. -/
theorem textWithin_eq (h : heap.Agree free heap') (depth : Nat) (opened : List InstanceId)
    (value : Value) : heap.textWithin depth opened value = heap'.textWithin depth opened value := by
  induction depth generalizing opened value with
  | zero =>
    cases value with
    | inst id => simp only [textWithin, h.listing?_eq, plainText, h.classes]
    | _ => rfl
  | succ depth ih =>
    cases value with
    | inst id =>
      simp only [textWithin, h.listing?_eq, plainText, h.classes, funext (ih (id :: opened))]
    | _ => rfl

/-- The text of a value has nothing to do with where iterators stand. -/
theorem text_eq (h : heap.Agree free heap') (value : Value) :
    heap.text value = heap'.text value := by
  rw [text, text, h.size, h.textWithin_eq]

/-! ## 3. Operations on heaps that agree

One lemma for every way in which an operation looks at the heap or changes it. -/

/-- A payload is changed in both heaps. -/
theorem setPayload (h : heap.Agree free heap') (self : InstanceId) (payload : Payload) :
    (heap.setPayload self payload).Agree free (heap'.setPayload self payload) where
  storages := h.storages
  nodes := h.nodes
  size := by simpa [Heap.setPayload] using h.size
  classes id := by rw [class?_setPayload, class?_setPayload, h.classes]
  fields id name := by rw [field?_setPayload, field?_setPayload, h.fields]
  payloads id := by
    by_cases on : id = self
    · subst on
      -- whether there is such an instance is the same in both
      refine .inl ?_
      cases found : heap.class? id with
      | some cls =>
        have found' := (h.classes id).symm.trans found
        rw [payload?_setPayload_self found, payload?_setPayload_self found']
      | none =>
        have none_of : ∀ {heap : Heap}, heap.class? id = none →
            (heap.setPayload id payload).payload? id = none := by
          intro heap found
          rw [← class?_setPayload heap id id payload] at found
          rw [payload?, Option.map_eq_none_iff.1 found, Option.bind_none]
        rw [none_of found, none_of ((h.classes id).symm.trans found)]
    · rw [payload?_setPayload_of_ne (Ne.symm on), payload?_setPayload_of_ne (Ne.symm on)]
      exact h.payloads id

/-- A new instance gets the same number in both. -/
theorem add (h : heap.Agree free heap') (cls : Class) (payload : Option Payload) :
    (heap.add cls payload).2.Agree free (heap'.add cls payload).2 where
  storages := h.storages
  nodes := h.nodes
  size := by simpa [Heap.add] using h.size
  classes id := by rw [class?_add, class?_add, h.size, h.classes]
  fields id name := by rw [field?_add, field?_add, h.fields]
  payloads id := by
    rw [payload?_add, payload?_add, h.size]
    split
    · exact .inl rfl
    · exact h.payloads id

/-- Only storages and nodes are changed, and they are changed alike. -/
theorem of_instances (h : heap.Agree free heap') {after after' : Heap}
    (instances : after.instances = heap.instances) (instances' : after'.instances = heap'.instances)
    (storages : after.storages = after'.storages) (nodes : after.nodes = after'.nodes) :
    after.Agree free after' := by
  cases after
  cases after'
  cases instances
  cases instances'
  exact ⟨storages, nodes, h.size, h.classes, h.fields, h.payloads⟩

/-- A chain is changed in both heaps. -/
theorem setChain (h : heap.Agree free heap') (self : InstanceId) (changed : Chain × Nodes Value) :
    (heap.setChain self changed).Agree free (heap'.setChain self changed) := by
  have renewed : Agree free { heap with nodes := changed.2 } { heap' with nodes := changed.2 } :=
    h.of_instances rfl rfl h.storages rfl
  exact renewed.setPayload self _

/-- Whether an iterator has items depends on storages and nodes. -/
theorem hasItems_eq (h : heap.Agree free heap') (iterator : Iterator) :
    heap.hasItems iterator = heap'.hasItems iterator := by
  unfold Heap.hasItems storageSize
  rw [h.storages]

theorem current?_eq (h : heap.Agree free heap') (iterator : Iterator) :
    heap.current? iterator = heap'.current? iterator := by
  unfold Heap.current? item?
  rw [h.hasItems_eq, h.storages, h.nodes]

theorem advance_eq (h : heap.Agree free heap') (iterator : Iterator) :
    heap.advance iterator = heap'.advance iterator := by
  unfold Heap.advance
  rw [h.hasItems_eq, h.nodes]

/-- Two effects answer the same, and leave heaps that agree. -/
def Effects (free : InstanceId → Prop) (effect effect' : Effect) : Prop :=
  effect.1 = effect'.1 ∧ effect.2.Agree free effect'.2

section Effects

variable {self : InstanceId} {line : Nat}

/-- Both succeed with the same answer. -/
theorem ok {after after' : Heap} (h : after.Agree free after') (value : Value) :
    Effects free (.ok value, after) (.ok value, after') :=
  ⟨rfl, h⟩

/-- Both fail in the same way, and leave the heaps as they are. -/
theorem error (h : heap.Agree free heap') (interrupt : Interrupt) :
    Effects free (.error interrupt, heap) (.error interrupt, heap') :=
  ⟨rfl, h⟩

/-- The storage of an instance that is none of the iterators. -/
theorem withStorage (h : heap.Agree free heap') (kept : ¬ free self)
    {effect effect' : StorageId → Effect}
    (each : ∀ storage, Effects free (effect storage) (effect' storage)) :
    Effects free (heap.withStorage self line effect) (heap'.withStorage self line effect') := by
  unfold Heap.withStorage
  rw [h.payload?_eq kept]
  split
  · exact each _
  · exact h.error _

theorem withChain (h : heap.Agree free heap') (kept : ¬ free self) {effect effect' : Chain → Effect}
    (each : ∀ chain, Effects free (effect chain) (effect' chain)) :
    Effects free (heap.withChain self line effect) (heap'.withChain self line effect') := by
  unfold Heap.withChain
  rw [h.payload?_eq kept]
  split
  · exact each _
  · exact h.error _

/-- The iterator of such an instance. -/
theorem withIterator (h : heap.Agree free heap') (kept : ¬ free self)
    {effect effect' : Iterator → Effect}
    (each : ∀ iterator, Effects free (effect iterator) (effect' iterator)) :
    Effects free (heap.withIterator self line effect) (heap'.withIterator self line effect') := by
  unfold Heap.withIterator
  rw [h.iterator?_eq kept]
  split
  · exact each _
  · exact h.error _

/-- An index is in range in both or in neither. -/
theorem withIndex (h : heap.Agree free heap') (storage : StorageId) (place : Value)
    {effect effect' : Nat → Effect} (each : ∀ i, Effects free (effect i) (effect' i)) :
    Effects free (heap.withIndex storage line place effect)
      (heap'.withIndex storage line place effect') := by
  have elements : heap.elements storage = heap'.elements storage := by
    rw [elements, elements, h.storages]
  rw [withIndex_eq, withIndex_eq, elements]
  split
  · exact each _
  · exact h.error _

theorem withBound (h : heap.Agree free heap') (bound : Value) {effect effect' : Float → Effect}
    (each : ∀ x, Effects free (effect x) (effect' x)) :
    Effects free (heap.withBound line bound effect) (heap'.withBound line bound effect') := by
  unfold Heap.withBound
  split
  · exact each _
  · exact h.error _

end Effects

/-- **An operation on an instance that is kept** answers the same in both heaps, and leaves heaps
that agree. -/
theorem effect (h : heap.Agree free heap') {operation : Operation} (kept : ¬ free operation.self) :
    Effects free (operation.effect heap) (operation.effect heap') := by
  obtain ⟨method, self, arguments, line⟩ := operation
  have storages := h.storages
  have iterated : ∀ (cls : Class) (iterator : Iterator), Effects free
      (.ok (.inst heap.instances.size), (heap.add cls (some (.iterator iterator))).2)
      (.ok (.inst heap'.instances.size), (heap'.add cls (some (.iterator iterator))).2) :=
    fun cls iterator => h.size ▸ ok (h.add cls _) _
  unfold Operation.effect
  dsimp only
  split
  · have stored : (heap.addStorage #[]).2.Agree free (heap'.addStorage #[]).2 :=
      h.of_instances rfl rfl (congrArg (Array.push · #[]) storages) h.nodes
    have fresh : (heap.addStorage #[]).1 = (heap'.addStorage #[]).1 := congrArg Array.size storages
    exact fresh ▸ ok (stored.setPayload self _) _
  · rename_i value
    refine h.withStorage kept fun storage => ok ?_ _
    exact h.of_instances rfl rfl (congrArg (·.modify storage (·.push value)) storages) h.nodes
  · refine h.withStorage kept fun storage => h.withIndex storage _ fun i => ?_
    simp only [item?_eq, elements, storages]
    split
    · exact ok h _
    · exact h.error _
  · rename_i value
    refine h.withStorage kept fun storage => h.withIndex storage _ fun i => ok ?_ _
    exact h.of_instances rfl rfl (congrArg (·.modify storage (·.setIfInBounds i value)) storages)
      h.nodes
  · refine h.withStorage kept fun storage => ?_
    simp only [storageSize, storages]
    exact ok h _
  · exact h.withStorage kept fun storage => iterated _ _
  · exact ok (h.setPayload self _) _
  · exact h.withChain kept fun chain => h.nodes ▸ ok (h.setChain self _) _
  · exact h.withChain kept fun chain => h.nodes ▸ ok (h.setChain self _) _
  · exact h.withChain kept fun chain => h.nodes ▸ ok h _
  · exact h.withChain kept fun chain => h.nodes ▸ ok h _
  · exact h.withChain kept fun chain => ok h _
  · exact h.withChain kept fun chain => iterated _ _
  · refine h.withBound _ fun _ => h.withBound _ fun _ => h.withBound _ fun _ => ?_
    split
    · exact h.error _
    · exact ok (h.setPayload self _) _
  · exact ok h _
  · refine h.withIterator kept fun iterator => ?_
    rw [h.hasItems_eq]
    exact ok h _
  · refine h.withIterator kept fun iterator => ?_
    rw [h.current?_eq]
    split
    · exact ok h _
    · exact h.error _
  · refine h.withIterator kept fun iterator => ?_
    rw [h.advance_eq]
    exact ok (h.setPayload self _) _
  · exact h.error _

/-- **Going along with an iterator that is left out** leaves a heap that agrees with the other. -/
theorem step (h : heap.Agree free heap') {operation : Operation} (steps : operation.Steps)
    (left : free operation.self) : (operation.effect heap).2.Agree free heap' := by
  rcases steps.changes (operation.does_effect heap).changes with same | ⟨iterator, held, changed⟩
  · rwa [same]
  have found := iterator?_eq_some.1 held
  have before : ∃ iterator, heap'.payload? operation.self = some (.iterator iterator) := by
    rcases h.payloads operation.self with same | ⟨-, -, there⟩
    · exact ⟨iterator, same.symm.trans found⟩
    · exact there
  rw [changed]
  exact {
    storages := h.storages
    nodes := h.nodes
    size := by simpa [Heap.setPayload] using h.size
    classes := fun id => (class?_setPayload ..).trans (h.classes id)
    fields := fun id name => (field?_setPayload ..).trans (h.fields id name)
    payloads := fun id => by
      by_cases on : id = operation.self
      · subst on
        exact .inr ⟨left, ⟨_, payload?_setPayload_held found _⟩, before⟩
      · rw [payload?_setPayload_of_ne (Ne.symm on)]
        exact h.payloads id }

end Heap.Agree

/-! ## 4. Rows without some iterators

By induction on the row, leaving out the operations on the iterators in question. -/

open Operation in
/-- **Operations on some iterators can be left out of a row**: the others answer the same, and the
heaps in the end agree. -/
theorem Heap.Agree.carryOut {kept : InstanceId → Bool} {operations : List Operation}
    (steps : ∀ operation ∈ operations, kept operation.self = false → operation.Steps) {s t : State}
    (h : s.heap.Agree (kept · = false) t.heap) :
    (carryOut operations s).answers.filter (kept ·.1.self) =
        (carryOut (operations.filter (kept ·.self)) t).answers ∧
      (carryOut operations s).state.heap.Agree (kept · = false)
        (carryOut (operations.filter (kept ·.self)) t).state.heap := by
  induction operations generalizing s t with
  | nil => exact ⟨rfl, h⟩
  | cons operation rest ih =>
    have later := fun o mem => steps o (List.mem_cons_of_mem operation mem)
    cases on : kept operation.self with
    | true =>
      have unfree : ¬ kept operation.self = false := by simp [on]
      obtain ⟨same, agree⟩ := h.effect unfree
      rw [← heap_run, ← heap_run] at agree
      obtain ⟨answers, heaps⟩ := ih later agree
      simp only [Operation.carryOut, List.filter_cons, on, if_true]
      exact ⟨by rw [answers, answerOf_run, answerOf_run, same], heaps⟩
    | false =>
      have agree := h.step (steps operation List.mem_cons_self on) on
      rw [← heap_run] at agree
      simpa [Operation.carryOut, on] using ih later agree

/-! ## 5. Rows on one collection

What a row of operations does to one collection is what it does to a plain sequence. -/

section Collection

variable {heap : Heap} {id : InstanceId} {kind : BuiltinClass} {operation : Operation}

/-- An operation of a row on one collection: it is on the collection, by a method of its class, or
it goes along with something else. -/
def Operation.Concerns (operation : Operation) (id : InstanceId) (kind : BuiltinClass) : Prop :=
  operation.self = id ∧ operation.method ∈ kind.methods ∨ operation.self ≠ id ∧ operation.Steps

/-- An operation on a collection makes as many instances as one on a sequence. -/
theorem Heap.Collects.size_effect (collects : heap.Collects operation.self kind)
    (mem : operation.method ∈ kind.methods) :
    (operation.effect heap).2.instances.size = operation.nextAfter heap.instances.size := by
  obtain ⟨method, self, arguments, line⟩ := operation
  have sizes : ∀ (heap : Heap) (self : InstanceId) (payload : Payload),
      (heap.setPayload self payload).instances.size = heap.instances.size :=
    fun heap self payload => Array.size_modify
  have changes := (Operation.does_effect ⟨method, self, arguments, line⟩ heap).changes
  cases method with
  | listIterate =>
    cases arguments with
    | nil =>
      cases collects with
      | list held =>
        simp only [Operation.effect, Heap.withStorage, held]
        exact Array.size_push _
      | linkedList held => exact absurd mem (by simp [BuiltinClass.methods])
    | cons => rfl
  | linkedIterate =>
    cases arguments with
    | nil =>
      cases collects with
      | list held => exact absurd mem (by simp [BuiltinClass.methods])
      | linkedList held =>
        simp only [Operation.effect, Heap.withChain, held]
        exact Array.size_push _
    | cons => rfl
  | _ =>
    -- the other methods make no instance
    generalize (Operation.effect _ heap).2 = heap' at changes
    cases changes <;> first | rfl | exact sizes ..

open Operation in
/-- A row of operations is a run of them. -/
theorem Heap.Undergoes.carryOut {p : Operation → Heap → Prop} {operations : List Operation}
    (fits : ∀ operation ∈ operations, ∀ heap, p operation heap) (s : State) :
    s.heap.Undergoes p operations (carryOut operations s).state.heap := by
  induction operations generalizing s with
  | nil => exact .done s.heap
  | cons operation rest ih =>
    have later := ih (fun o mem => fits o (List.mem_cons_of_mem _ mem)) (endState (operation.run s))
    rw [heap_run] at later
    exact .operation (fits operation List.mem_cons_self _) later

open Operation in
/-- **The operations on a collection answer as on a plain sequence**, whatever goes along with it in
between. -/
theorem Heap.Apart.answers_carryOut {operations : List Operation}
    (concern : ∀ operation ∈ operations, operation.Concerns id kind) {s : State}
    (apart : s.heap.Apart) (collects : s.heap.Collects id kind) :
    (carryOut operations s).answers.filter (·.1.self = id) =
      answersOnSequence (operations.filter (·.self = id)) s.heap.instances.size
        (s.heap.contents id) := by
  induction operations generalizing s with
  | nil => rfl
  | cons operation rest ih =>
    have changes := (operation.does_effect s.heap).changes
    have suits : operation.self = id → operation.method ∈ kind.methods :=
      fun on => ((concern operation List.mem_cons_self).resolve_right fun off => off.1 on).2
    have later := ih (fun o mem => concern o (List.mem_cons_of_mem _ mem))
      (s := endState (operation.run s)) (by rw [heap_run]; exact apart.changes changes)
      (by rw [heap_run]; exact collects.effect suits)
    rw [heap_run] at later
    rcases concern operation List.mem_cons_self with ⟨rfl, mem⟩ | ⟨off, steps⟩
    · obtain ⟨answer, contents⟩ := apart.refined collects mem
      rw [contents, collects.size_effect mem] at later
      simp only [Operation.carryOut, List.filter_cons, decide_true, if_true, answersOnSequence,
        answerOf_run, answer, later]
    · have size : (operation.effect s.heap).2.instances.size = s.heap.instances.size := by
        rcases steps.changes changes with same | ⟨_, _, changed⟩
        · rw [same]
        · rw [changed]
          exact Array.size_modify
      rw [apart.contents_of_ne changes collects (Ne.symm off), size] at later
      simp only [Operation.carryOut, List.filter_cons, decide_eq_false off, Bool.false_eq_true,
        if_false, later]

/-- How a collection of a kind is written. -/
def BuiltinClass.listing (kind : BuiltinClass) (items : List Value) : Listing :=
  if kind = .list then ⟨"[", "]", ", ", items⟩ else ⟨"(", ")", " ", items⟩

/-- A collection is written with its elements. -/
theorem Heap.Collects.listing?_eq (collects : heap.Collects id kind) :
    heap.listing? id = some (kind.listing (heap.contents id)) := by
  cases collects with
  | list held => simp only [listing?, contents, held]; rfl
  | linkedList held => simp only [listing?, contents, held]; rfl

/-- A step of an iterator that has no items changes nothing. -/
theorem Operation.run_move_of_exhausted {s : State} {iterator : Iterator}
    (held : s.heap.iterator? id = some iterator) (exhausted : s.heap.hasItems iterator = false)
    (line : Nat) : (Operation.mk .move id [] line).run s = .ok .nil s := by
  have stays : s.heap.advance iterator = iterator := by simp [Heap.advance, exhausted]
  have same := Heap.setPayload_held (Heap.iterator?_eq_some.1 held)
  rw [run_eq]
  simp only [effect, Heap.withIterator, held, stays, same, State.ending]

end Collection

end Lox
