/-
# What a name stands for on an instance

A property of an instance is a field, or else the method of the first class that declares one along
the chain of superclasses (`Heap.property?`).  Instances keep their classes, so only giving the very
field a value makes a property stand for something else (`Heap.property?_setField_of_ne`); no
operation of a built-in class does (`Operation.Changes.keepsFields`).
-/
import Lox.Proofs.Scoping.Anchor
import Lox.Proofs.Value.Collection

namespace Lox

/-! ## 1. Chains of superclasses -/

namespace Class

/-- The class that a class was declared with. -/
def superclass? : Class → Option Class
  | builtin _ | base _ => none
  | derived _ superclass => some superclass

/-- The chain of a class goes from each class in it to the superclass of that class, up to one
without. -/
theorem getElem?_chain_succ (cls : Class) (k : Nat) :
    cls.chain[k + 1]? = cls.chain[k]?.bind superclass? := by
  induction cls generalizing k with
  | builtin kind => cases k <;> rfl
  | base info => cases k <;> rfl
  | derived info superclass ih =>
    rw [chain, List.getElem?_cons_succ]
    cases k with
    | zero =>
      rw [List.getElem?_cons_zero, Option.bind_some, superclass?]
      cases superclass <;> rfl
    | succ k => rw [List.getElem?_cons_succ, ih]

end Class

/-! ## 2. Properties -/

/-- What a name stands for on an instance. -/
inductive Property where
  | field (value : Value)
  | method (method : Method)

namespace Heap

/-- A field of an instance, or else the first method along the chain of its class. -/
def property? (heap : Heap) (id : InstanceId) (name : String) : Option Property :=
  match heap.field? id name with
  | some value => some (.field value)
  | none => ((heap.class? id).bind (·.chain.findSome? (Class.own? name))).map .method

/-- A heap has the fields of an earlier one, and instances have their classes. -/
structure KeepsFields (heap heap' : Heap) : Prop where
  field : ∀ id name, heap'.field? id name = heap.field? id name
  «class» : ∀ id cls, heap.class? id = some cls → heap'.class? id = some cls

variable {heap heap' heap'' : Heap} {id : InstanceId} {name : String}

namespace KeepsFields

theorem refl (heap : Heap) : heap.KeepsFields heap := ⟨fun _ _ => rfl, fun _ _ h => h⟩

theorem trans (h : heap.KeepsFields heap') (h' : heap'.KeepsFields heap'') :
    heap.KeepsFields heap'' where
  field id name := (h'.field id name).trans (h.field id name)
  «class» id cls found := h'.class id cls (h.class id cls found)

theorem of_instances (same : heap'.instances = heap.instances) : heap.KeepsFields heap' where
  field id name := by rw [field?, field?, same]
  «class» id _ found := by rwa [class?, same]

theorem add (heap : Heap) (cls : Class) (payload : Option Payload) :
    heap.KeepsFields (heap.add cls payload).2 where
  field := field?_add heap cls payload
  «class» _ _ found := class?_add_of_some found cls payload

theorem setPayload (same : heap'.instances = heap.instances) (self : InstanceId)
    (payload : Payload) : heap.KeepsFields (heap'.setPayload self payload) where
  field id name := by rw [field?_setPayload, field?, field?, same]
  «class» id _ found := by rwa [class?_setPayload, class?, same]

end KeepsFields

/-- A field that an instance is given is there, and all others are as they were. -/
theorem field?_setField_eq {self : InstanceId} (there : (heap.class? self).isSome)
    (given : String) (value : Value) (id : InstanceId) (name : String) :
    (heap.setField self given value).field? id name =
      if self = id ∧ given = name then some value else heap.field? id name := by
  simp only [field?, setField, Array.getElem?_modify]
  by_cases same : self = id
  · subst same
    obtain ⟨cls, found⟩ := Option.isSome_iff_exists.1 there
    obtain ⟨inst, held, -⟩ := Option.map_eq_some_iff.1 found
    simp [held, Bindings.get?_insert]
  · simp [same]

theorem field?_setField_of_ne (heap : Heap) {self : InstanceId} {given : String} (value : Value)
    (other : ¬ (self = id ∧ given = name)) :
    (heap.setField self given value).field? id name = heap.field? id name := by
  simp only [field?, setField, Array.getElem?_modify]
  by_cases same : self = id
  · subst same
    have unlike : given ≠ name := fun same => other ⟨rfl, same⟩
    cases heap.instances[self]? <;> simp [unlike]
  · simp [same]

/-- Every other property stands for what it did before. -/
theorem property?_setField_of_ne (heap : Heap) {self : InstanceId} {given : String} (value : Value)
    (other : ¬ (self = id ∧ given = name)) :
    (heap.setField self given value).property? id name = heap.property? id name := by
  rw [property?, property?, field?_setField_of_ne heap value other, class?_setField]

end Heap

/-- No operation gives a field a value. -/
theorem Operation.Changes.keepsFields {heap heap' : Heap} {operation : Operation}
    (h : operation.Changes heap heap') : heap.KeepsFields heap' := by
  cases h with
  | same => exact .refl heap
  | pushItem | setItem => exact .of_instances rfl
  | iterateList | iterateLinked => exact .add heap _ _
  | initList | initLinked | initRange | advance | push | pushBack =>
    refine .setPayload ?_ _ _
    rfl

end Lox
