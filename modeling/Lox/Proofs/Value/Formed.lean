/-
# What values a program can have

Some values could be written down that no program ever has: a bound method of a list whose receiver
is not a list, an instance of a built-in class without a payload, an initializer that is not marked
as one.  `Value.Formed` excludes these, in view of the classes and the payloads of instances, and
what is formed stays formed while the heap grows.

A heap is formed (`Heap.Formed`) if all values in it are, and if each payload is of the kind that
the class of the instance has at its root.
-/
import Lox.Proofs.Value.Native

namespace Lox

/-! ## 1. Values

What is excluded are values that the types allow and no program has. -/

/-- Methods are marked as initializers if they have been declared as such. -/
def Class.Flagged (cls : Class) : Prop :=
  ∀ level ∈ cls.chain, ∀ name closure, level.methods.get? name = some closure →
    closure.isInitializer = closure.declaration.isInitializer

/-- A class that can be a value, and so be called or inherited from. -/
structure Class.Formed (cls : Class) : Prop where
  flagged : cls.Flagged
  global : ∀ kind, cls.root? = some kind → kind ∈ BuiltinClass.globals

/-- An instance that a program can have: if its own class is built in, it has a payload. -/
def Heap.Complete (heap : Heap) (id : InstanceId) : Prop :=
  ∃ cls, heap.class? id = some cls ∧ (cls.isBuiltin → (heap.payload? id).isSome)

/-- A method that can be bound to an instance: a built-in one is a method of the root of the class
of the instance. -/
def Method.Suits (heap : Heap) (receiver : InstanceId) : Method → Prop
  | .builtin method => ∃ cls kind, heap.class? receiver = some cls ∧ cls.root? = some kind ∧
      method ∈ kind.methods
  | .declared closure => closure.isInitializer = closure.declaration.isInitializer

/-- A method that has been bound to an instance. -/
structure BoundMethod.Formed (heap : Heap) (bound : BoundMethod) : Prop where
  complete : heap.Complete bound.receiver
  suits : bound.method.Suits heap bound.receiver

/-- A callable that a program can have; a function is not an initializer, whatever its name. -/
def Callable.Formed (heap : Heap) : Callable → Prop
  | .builtin _ => True
  | .closure c => c.isInitializer = false
  | .bound m => m.Formed heap
  | .class cls => cls.Formed

/-- A value that a program can have. -/
def Value.Formed (heap : Heap) : Value → Prop
  | .callable c => c.Formed heap
  | .inst id => heap.Complete id
  | _ => True

/-- Of all values, only some callables and instances are excluded. -/
theorem Value.formed_of_type (heap : Heap) {value : Value} (data : value.type ≠ .callable)
    (data' : value.type ≠ .inst) : value.Formed heap := by
  cases value with
  | callable callable => exact absurd rfl data
  | inst id => exact absurd rfl data'
  | _ => trivial

/-- A built-in class has no initializers to mark. -/
theorem Class.flagged_builtin (kind : BuiltinClass) : (Class.builtin kind).Flagged := by
  intro level above name closure own
  obtain rfl := List.mem_singleton.1 above
  cases own

/-- A built-in class that a program can name is formed. -/
theorem Class.formed_builtin {kind : BuiltinClass} (global : kind ∈ BuiltinClass.globals) :
    (Class.builtin kind).Formed := by
  refine ⟨flagged_builtin kind, fun other root => ?_⟩
  cases root
  exact global

/-- A method that is found in the chain of a class suits the instances of the class. -/
theorem Class.Flagged.suits {cls level : Class} (flagged : cls.Flagged) (above : level ∈ cls.chain)
    {name : String} {method : Method} (own : level.own? name = some method) {heap : Heap}
    {receiver : InstanceId} (hcls : heap.class? receiver = some cls) :
    method.Suits heap receiver := by
  cases method with
  | builtin method =>
    cases level with
    | builtin kind =>
      obtain ⟨found, hfound, ⟨⟩⟩ := Option.map_eq_some_iff.1 own
      exact ⟨cls, kind, hcls, Class.builtin_mem_chain.1 above,
        (BuiltinClass.mem_methods_of_method? hfound).1⟩
    | base info => obtain ⟨_, -, ⟨⟩⟩ := Option.map_eq_some_iff.1 own
    | derived info superclass => obtain ⟨_, -, ⟨⟩⟩ := Option.map_eq_some_iff.1 own
  | declared closure => exact flagged level above name closure (own?_eq_declared.1 own)

/-! ## 2. What is formed stays formed

Formed values are tied to the heap by classes and payloads, and neither is ever taken back. -/

section Grows

variable {heap heap' : Heap} (grows : heap.Grows heap')

include grows

/-- An instance that has its payload keeps it. -/
theorem Heap.Complete.mono {id : InstanceId} (h : heap.Complete id) : heap'.Complete id := by
  obtain ⟨cls, hcls, set⟩ := h
  exact ⟨cls, grows.class id cls hcls, fun builtin => grows.isSome (set builtin)⟩

/-- A method suits a receiver by the class of the receiver, which stays. -/
theorem Method.Suits.mono {receiver : InstanceId} {method : Method}
    (h : method.Suits heap receiver) : method.Suits heap' receiver := by
  cases method with
  | builtin method =>
    obtain ⟨cls, kind, hcls, root, mem⟩ := h
    exact ⟨cls, kind, grows.class _ _ hcls, root, mem⟩
  | declared closure => exact h

theorem BoundMethod.Formed.mono {bound : BoundMethod} (h : bound.Formed heap) :
    bound.Formed heap' :=
  ⟨h.complete.mono grows, h.suits.mono grows⟩

/-- What is formed stays formed as the heap grows. -/
theorem Value.Formed.mono {value : Value} (h : value.Formed heap) : value.Formed heap' := by
  cases value with
  | callable callable =>
    cases callable with
    | bound method => exact BoundMethod.Formed.mono grows h
    | _ => exact h
  | inst id => exact Heap.Complete.mono grows h
  | _ => trivial

end Grows

/-! ## 3. Heaps

Every change of the heap keeps it formed. -/

/-- All values in a heap are formed, and payloads are of the kinds of the roots of classes. -/
structure Heap.Formed (heap : Heap) : Prop where
  classes : ∀ id cls, heap.class? id = some cls → cls.Flagged
  payloads : ∀ id payload, heap.payload? id = some payload →
    ∃ cls, heap.class? id = some cls ∧ cls.root? = some payload.kind
  fields : ∀ id name value, heap.field? id name = some value → value.Formed heap
  items : ∀ storage index value, heap.item? storage index = some value → value.Formed heap
  elements : ∀ id node, heap.nodes.node? id = some node → node.element.Formed heap

namespace Heap.Formed

variable {heap heap' : Heap}

/-- What is found in a heap that has grown was there before, or is new and formed. -/
theorem of_grows (formed : heap.Formed) (grows : heap.Grows heap')
    (classes : ∀ id cls, heap'.class? id = some cls → heap.class? id = some cls ∨ cls.Flagged)
    (payloads : ∀ id payload, heap'.payload? id = some payload →
      heap.payload? id = some payload ∨
        ∃ cls, heap'.class? id = some cls ∧ cls.root? = some payload.kind)
    (fields : ∀ id name value, heap'.field? id name = some value →
      heap.field? id name = some value ∨ value.Formed heap')
    (items : ∀ storage index value, heap'.item? storage index = some value →
      heap.item? storage index = some value ∨ value.Formed heap')
    (elements : ∀ id node, heap'.nodes.node? id = some node →
      (∃ id old, heap.nodes.node? id = some old ∧ old.element = node.element) ∨
        node.element.Formed heap') :
    heap'.Formed where
  classes id cls found := (classes id cls found).elim (formed.classes id cls) fun h => h
  payloads id payload found := by
    rcases payloads id payload found with old | new
    · obtain ⟨cls, hcls, root⟩ := formed.payloads id payload old
      exact ⟨cls, grows.class id cls hcls, root⟩
    · exact new
  fields id name value found :=
    (fields id name value found).elim (fun old => (formed.fields id name value old).mono grows)
      fun h => h
  items storage index value found :=
    (items storage index value found).elim
      (fun old => (formed.items storage index value old).mono grows) fun h => h
  elements id node found := by
    rcases elements id node found with ⟨id', old, hold, same⟩ | new
    · rw [← same]
      exact (formed.elements id' old hold).mono grows
    · exact new

/-- A new instance without a payload, or with one of the right kind. -/
theorem add (formed : heap.Formed) {cls : Class} (flagged : cls.Flagged) {payload : Option Payload}
    (root : ∀ found ∈ payload, cls.root? = some found.kind) :
    (heap.add cls payload).2.Formed := by
  refine formed.of_grows (.add heap cls payload) (fun id found h => ?_) (fun id found h => ?_)
    (fun id name value found => ?_) (fun _ _ _ found => Or.inl found)
    fun id node found => Or.inl ⟨id, node, found, rfl⟩
  · rw [class?_add] at h
    split at h
    · cases h
      exact Or.inr flagged
    · exact Or.inl h
  · rw [payload?_add] at h
    split at h
    · rename_i new
      exact Or.inr ⟨cls, by rw [class?_add, if_pos new], root found h⟩
    · exact Or.inl h
  · rw [field?_add] at found
    exact Or.inl found

/-- A field holds a formed value. -/
theorem setField (formed : heap.Formed) (self : InstanceId) (name : String) {value : Value}
    (hvalue : value.Formed heap) : (heap.setField self name value).Formed := by
  have grows := Grows.setField heap self name value
  refine formed.of_grows grows (fun id cls found => ?_) (fun id payload found => ?_)
    (fun id other found h => ?_) (fun _ _ _ found => Or.inl found)
    fun id node found => Or.inl ⟨id, node, found, rfl⟩
  · rw [class?_setField] at found
    exact Or.inl found
  · rw [payload?_setField] at found
    exact Or.inl found
  · rcases field?_setField h with rfl | old
    · exact Or.inr (hvalue.mono grows)
    · exact Or.inl old

section SetPayload

variable {self : InstanceId} {cls : Class} {payload : Payload}
  (hcls : heap.class? self = some cls) (root : cls.root? = some payload.kind)

include hcls root

/-- An instance is given a payload of the kind that its class has at the root. -/
theorem grows_setPayload (formed : heap.Formed) : heap.Grows (heap.setPayload self payload) := by
  refine .setPayload fun old found => ?_
  obtain ⟨cls', hcls', root'⟩ := formed.payloads self old found
  obtain rfl := Option.some.inj (hcls.symm.trans hcls')
  exact Option.some.inj (root.symm.trans root')

/-- A payload is of the right kind, by the class of the instance. -/
theorem setPayload (formed : heap.Formed) : (heap.setPayload self payload).Formed := by
  have grows := grows_setPayload hcls root formed
  refine formed.of_grows grows (fun id found h => ?_) (fun id found h => ?_)
    (fun id name value found => ?_) (fun _ _ _ found => Or.inl found)
    fun id node found => Or.inl ⟨id, node, found, rfl⟩
  · rw [class?_setPayload] at h
    exact Or.inl h
  · rcases payload?_setPayload h with ⟨rfl, rfl⟩ | old
    · exact Or.inr ⟨cls, grows.class _ _ hcls, root⟩
    · exact Or.inl old
  · rw [field?_setPayload] at found
    exact Or.inl found

end SetPayload

/-- Storages hold the same or other values that are formed. -/
theorem setStorages (formed : heap.Formed) {storages : Array (Array Value)}
    (items : ∀ storage index value,
      Heap.item? { heap with storages := storages } storage index = some value →
        heap.item? storage index = some value ∨ value.Formed heap) :
    Heap.Formed { heap with storages := storages } := by
  have grows : heap.Grows { heap with storages := storages } := .of_instances rfl
  refine formed.of_grows grows (fun _ _ found => Or.inl found) (fun _ _ found => Or.inl found)
    (fun _ _ _ found => Or.inl found) (fun storage index value found => ?_)
    fun id node found => Or.inl ⟨id, node, found, rfl⟩
  exact (items storage index value found).imp_right (Value.Formed.mono grows)

/-- A storage holds formed values. -/
theorem addStorage (formed : heap.Formed) {values : Array Value}
    (hvalues : ∀ value ∈ values, value.Formed heap) : (heap.addStorage values).2.Formed :=
  formed.setStorages fun _ _ value found =>
    (item?_addStorage found).elim (fun new => Or.inr (hvalues value new)) Or.inl

theorem pushItem (formed : heap.Formed) (storage : StorageId) {value : Value}
    (hvalue : value.Formed heap) : (heap.pushItem storage value).Formed := by
  refine formed.setStorages fun _ _ found h => ?_
  rcases item?_pushItem h with rfl | old
  · exact Or.inr hvalue
  · exact Or.inl old

theorem setItem (formed : heap.Formed) (storage : StorageId) (place : Nat) {value : Value}
    (hvalue : value.Formed heap) : (heap.setItem storage place value).Formed := by
  refine formed.setStorages fun _ _ found h => ?_
  rcases item?_setItem h with rfl | old
  · exact Or.inr hvalue
  · exact Or.inl old

/-- Nodes hold the same elements or other ones that are formed. -/
theorem setNodes (formed : heap.Formed) {nodes : Nodes Value}
    (elements : ∀ id node, nodes.node? id = some node →
      node.element.Formed heap ∨
        ∃ old, heap.nodes.node? id = some old ∧ old.element = node.element) :
    Heap.Formed { heap with nodes := nodes } := by
  have grows : heap.Grows { heap with nodes := nodes } := .of_instances rfl
  refine formed.of_grows grows (fun _ _ found => Or.inl found) (fun _ _ found => Or.inl found)
    (fun _ _ _ found => Or.inl found) (fun _ _ _ found => Or.inl found) fun id node found => ?_
  rcases elements id node found with new | ⟨old, hold, same⟩
  · exact Or.inr (new.mono grows)
  · exact Or.inl ⟨id, old, hold, same⟩

end Heap.Formed

end Lox
