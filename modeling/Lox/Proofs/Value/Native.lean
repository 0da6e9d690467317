/-
# The built-in class at the root of a class

Only a declared class can have a superclass, so a chain of superclasses holds at most one built-in
class, and that at its end (`Class.chain_of_root?`).  All classes along a chain have the same root.

Each payload is of a kind, that of the built-in class whose instances hold such a payload.  A heap
has grown if instances keep their classes and the kinds of their payloads (`Heap.Grows`).
-/
import Lox.Proofs.Scoping.Anchor

namespace Lox

/-! ## 1. Roots

A built-in class has no superclass, so it can only stand at the end of a chain. -/

namespace Class

/-- The built-in class at the end of the chain of superclasses, if there is one. -/
def root? : Class → Option BuiltinClass
  | builtin kind => some kind
  | base _ => none
  | derived _ superclass => superclass.root?

variable {cls level : Class} {kind : BuiltinClass}

/-- All classes along a chain have the same root. -/
theorem root?_of_mem_chain (above : level ∈ cls.chain) : level.root? = cls.root? := by
  induction cls with
  | builtin kind =>
    obtain rfl := List.mem_singleton.1 above
    rfl
  | base info =>
    obtain rfl := List.mem_singleton.1 above
    rfl
  | derived info superclass ih =>
    rcases List.mem_cons.1 above with rfl | above
    · rfl
    · exact ih above

/-- A built-in class in the chain is the root. -/
theorem builtin_mem_chain : builtin kind ∈ cls.chain ↔ cls.root? = some kind := by
  refine ⟨fun above => (root?_of_mem_chain above).symm, fun root => ?_⟩
  induction cls with
  | builtin other =>
    cases root
    exact List.mem_cons_self
  | base info => cases root
  | derived info superclass ih => exact List.mem_cons_of_mem _ (ih root)

/-- The chain of a class consists of declared classes, and the root behind them if there is one. -/
theorem chain_of_root? (cls : Class) : ∃ declared : List Class,
    cls.chain = declared ++ cls.root?.toList.map builtin ∧
      ∀ level ∈ declared, level.isBuiltin = false := by
  induction cls with
  | builtin kind => exact ⟨[], rfl, nofun⟩
  | base info =>
    refine ⟨[base info], rfl, fun level h => ?_⟩
    obtain rfl := List.mem_singleton.1 h
    rfl
  | derived info superclass ih =>
    obtain ⟨declared, chain, plain⟩ := ih
    refine ⟨derived info superclass :: declared, ?_, fun level h => ?_⟩
    · rw [Class.chain, chain, root?, List.cons_append]
    · rcases List.mem_cons.1 h with rfl | h
      · rfl
      · exact plain level h

/-- A class that is built in has no superclass. -/
theorem root?_of_isBuiltin (h : cls.isBuiltin) : ∃ kind, cls = builtin kind := by
  cases cls with
  | builtin kind => exact ⟨kind, rfl⟩
  | base info => cases h
  | derived info superclass => cases h

end Class

namespace BuiltinMethod

/-- Whether a built-in method is the one that gives an instance its payload. -/
def initializes (method : BuiltinMethod) : Bool := method.name = initializerName

end BuiltinMethod

namespace BuiltinClass

/-- What is found under a name is a method of the class. -/
theorem mem_methods_of_method? {kind : BuiltinClass} {name : String} {method : BuiltinMethod}
    (h : kind.method? name = some method) : method ∈ kind.methods ∧ method.name = name :=
  have named := List.find?_some (p := fun method : BuiltinMethod => decide (method.name = name)) h
  ⟨List.mem_of_find?_eq_some h, of_decide_eq_true named⟩

/-- Each class with a global name has a built-in method that initializes its instances. -/
theorem method?_initializer {kind : BuiltinClass} (global : kind ∈ globals) :
    ∃ method, kind.method? initializerName = some method ∧ method ∈ kind.methods ∧
      method.initializes := by
  revert kind
  decide

/-- No two classes share the method that initializes their instances. -/
theorem eq_of_initializes {kind kind' : BuiltinClass} : ∀ {method : BuiltinMethod},
    method ∈ kind.methods → method.initializes → method ∈ kind'.methods → kind = kind' := by
  suffices h : ∀ method ∈ kind.methods, method.initializes → method ∈ kind'.methods →
    kind = kind' from @h
  cases kind <;> cases kind' <;> decide

end BuiltinClass

/-! ## 2. Kinds of payloads

The kind of a payload is the class that makes such payloads. -/

/-- The built-in class whose instances hold such an iterator. -/
def Iterator.kind : Iterator → BuiltinClass
  | .list .. => .listIterator
  | .linkedList _ => .linkedListIterator
  | .range .. => .range

/-- The built-in class whose instances hold such a payload. -/
def Payload.kind : Payload → BuiltinClass
  | .list _ => .list
  | .linkedList _ => .linkedList
  | .iterator held => held.kind

/-- All iterators can be asked for items. -/
theorem Iterator.hasItems_mem_methods (iterator : Iterator) :
    .hasItems ∈ iterator.kind.methods := by
  cases iterator <;> simp [kind, BuiltinClass.methods]

/-- A step leaves an iterator of the same kind. -/
@[simp] theorem Heap.kind_advance (heap : Heap) (iterator : Iterator) :
    (heap.advance iterator).kind = iterator.kind := by
  unfold Heap.advance
  split
  · cases iterator <;> rfl
  · rfl

/-- A payload of the kind of lists is a storage. -/
theorem Payload.eq_list_of_kind {payload : Payload} (h : payload.kind = .list) :
    ∃ storage, payload = .list storage := by
  cases payload with
  | list storage => exact ⟨storage, rfl⟩
  | linkedList chain => cases h
  | iterator iterator => cases iterator <;> cases h

theorem Payload.eq_linkedList_of_kind {payload : Payload} (h : payload.kind = .linkedList) :
    ∃ chain, payload = .linkedList chain := by
  cases payload with
  | list storage => cases h
  | linkedList chain => exact ⟨chain, rfl⟩
  | iterator iterator => cases iterator <;> cases h

/-- The classes that have the methods of iterators are those of payloads that are iterators. -/
theorem Payload.eq_iterator_of_kind {payload : Payload} (h : .hasItems ∈ payload.kind.methods) :
    ∃ iterator, payload = .iterator iterator := by
  cases payload with
  | list storage => exact absurd h (show .hasItems ∉ BuiltinClass.list.methods by decide)
  | linkedList chain => exact absurd h (show .hasItems ∉ BuiltinClass.linkedList.methods by decide)
  | iterator iterator => exact ⟨iterator, rfl⟩

/-! ## 3. Heaps that grow

What never changes about an instance, whatever a program does. -/

namespace Heap

/-- Instances keep their classes, and payloads are only replaced by those of the same kind. -/
structure Grows (heap heap' : Heap) : Prop where
  «class» : ∀ id cls, heap.class? id = some cls → heap'.class? id = some cls
  payload : ∀ id payload, heap.payload? id = some payload →
    ∃ payload', heap'.payload? id = some payload' ∧ payload'.kind = payload.kind

variable {heap heap' heap'' : Heap}

namespace Grows

theorem refl (heap : Heap) : heap.Grows heap := ⟨fun _ _ h => h, fun _ payload h => ⟨payload, h, rfl⟩⟩

/-- A heap that has grown twice has grown. -/
theorem trans (h : heap.Grows heap') (h' : heap'.Grows heap'') : heap.Grows heap'' where
  «class» id cls found := h'.class id cls (h.class id cls found)
  payload id payload found := by
    obtain ⟨payload', found', kind⟩ := h.payload id payload found
    obtain ⟨payload'', found'', kind'⟩ := h'.payload id payload' found'
    exact ⟨payload'', found'', kind'.trans kind⟩

/-- A payload that has been set is never taken away. -/
theorem isSome (h : heap.Grows heap') {id : InstanceId} (set : (heap.payload? id).isSome) :
    (heap'.payload? id).isSome := by
  obtain ⟨payload, found⟩ := Option.isSome_iff_exists.1 set
  obtain ⟨payload', found', -⟩ := h.payload id payload found
  exact Option.isSome_iff_exists.2 ⟨payload', found'⟩

end Grows

/-- An instance with a payload is there. -/
theorem lt_size_of_payload? {id : InstanceId} {payload : Payload}
    (h : heap.payload? id = some payload) : id < heap.instances.size := by
  obtain ⟨inst, found, -⟩ := Option.bind_eq_some_iff.1 h
  exact (Array.getElem?_eq_some_iff.1 found).1

/-- A payload that has been set is there. -/
theorem payload?_setPayload_self {self : InstanceId} {cls : Class}
    (h : heap.class? self = some cls) (payload : Payload) :
    (heap.setPayload self payload).payload? self = some payload := by
  obtain ⟨inst, found, -⟩ := Option.map_eq_some_iff.1 h
  simp only [payload?, setPayload, Array.getElem?_modify, if_pos, found, Option.map_some,
    Option.bind_some]

/-- To set a payload changes no other instance. -/
theorem payload?_setPayload_of_ne {self id : InstanceId} (ne : self ≠ id) (payload : Payload) :
    (heap.setPayload self payload).payload? id = heap.payload? id := by
  simp only [payload?, setPayload, Array.getElem?_modify, if_neg ne]

namespace Grows

/-- A new instance changes none of the others. -/
theorem add (heap : Heap) (cls : Class) (payload : Option Payload) :
    heap.Grows (heap.add cls payload).2 where
  «class» _ _ found := class?_add_of_some found cls payload
  payload id found h := by
    refine ⟨found, ?_, rfl⟩
    rw [payload?_add, if_neg (Nat.ne_of_lt (lt_size_of_payload? h)), h]

/-- A field changes neither classes nor payloads. -/
theorem setField (heap : Heap) (self : InstanceId) (name : String) (value : Value) :
    heap.Grows (heap.setField self name value) where
  «class» _ _ found := (class?_setField ..).trans found
  payload _ payload found := ⟨payload, (payload?_setField ..).trans found, rfl⟩

/-- Only a payload of the same kind may stand in place of another one. -/
theorem setPayload {self : InstanceId} {payload : Payload}
    (same : ∀ old, heap.payload? self = some old → payload.kind = old.kind) :
    heap.Grows (heap.setPayload self payload) where
  «class» _ _ found := (class?_setPayload ..).trans found
  payload id old found := by
    by_cases hid : self = id
    · subst hid
      obtain ⟨inst, hinst, -⟩ := Option.bind_eq_some_iff.1 found
      have here : heap.class? self = some inst.cls := by rw [class?, hinst, Option.map_some]
      exact ⟨payload, payload?_setPayload_self here payload, same old found⟩
    · exact ⟨old, (payload?_setPayload_of_ne hid payload).trans found, rfl⟩

/-- The instances are the same. -/
theorem of_instances (same : heap'.instances = heap.instances) : heap.Grows heap' where
  «class» id cls found := by rw [class?, same]; exact found
  payload id payload found := ⟨payload, by rw [payload?, same]; exact found, rfl⟩

end Grows

end Heap

end Lox
