/-
# Instances and their state

The heap holds the state of every instance: its class, its fields, and, once a built-in `init` has
run, the payload of a built-in class.  The elements of a list are stored apart from the instance,
since its iterators share them; the nodes of linked lists are shared likewise.

An iterator is stepped by `Heap.hasItems`, `Heap.current?` and `Heap.advance`, of which only the
last changes it, and only while it has items.
-/
import Lox.Chain.Basic
import Lox.Value.Basic

namespace Lox

/-- The identity of the elements of a list. -/
abbrev StorageId := Nat

/-- A place in a built-in collection, or a range, from where it goes on. -/
inductive Iterator where
  | list (storage : StorageId) (position : Nat)
  | linkedList (chain : Chain)
  | range (current last step : Float)

/-- What an instance of a built-in class, or of a subclass of one, holds besides its fields. -/
inductive Payload where
  | list (storage : StorageId)
  | linkedList (chain : Chain)
  | iterator (iterator : Iterator)

/-- The state of an instance. -/
structure Instance where
  cls : Class
  fields : Bindings Value
  payload : Option Payload

/-- The state of all instances. -/
structure Heap where
  instances : Array Instance
  storages : Array (Array Value)
  nodes : Nodes Value

namespace Heap

/-- No instances. -/
def empty : Heap := ⟨#[], #[], .empty⟩

/-! ## 1. Instances -/

/-- Makes an instance without fields. -/
def add (heap : Heap) (cls : Class) (payload : Option Payload) : InstanceId × Heap :=
  (heap.instances.size, { heap with instances := heap.instances.push ⟨cls, .empty, payload⟩ })

/-- The class of an instance. -/
def class? (heap : Heap) (id : InstanceId) : Option Class :=
  heap.instances[id]?.map Instance.cls

/-- The value of a field of an instance. -/
def field? (heap : Heap) (id : InstanceId) (name : String) : Option Value :=
  heap.instances[id]?.bind (·.fields.get? name)

/-- The payload of an instance. -/
def payload? (heap : Heap) (id : InstanceId) : Option Payload :=
  heap.instances[id]?.bind Instance.payload

/-- Gives a field of an instance a value. -/
def setField (heap : Heap) (id : InstanceId) (name : String) (value : Value) : Heap :=
  { heap with
    instances := heap.instances.modify id fun inst =>
      { inst with fields := inst.fields.insert name value } }

/-- Gives an instance another payload. -/
def setPayload (heap : Heap) (id : InstanceId) (payload : Payload) : Heap :=
  { heap with
    instances := heap.instances.modify id fun inst => { inst with payload := some payload } }

/-! ## 2. The elements of lists -/

/-- Stores the elements of a new list. -/
def addStorage (heap : Heap) (items : Array Value) : StorageId × Heap :=
  (heap.storages.size, { heap with storages := heap.storages.push items })

/-- The number of elements in a storage. -/
def storageSize (heap : Heap) (storage : StorageId) : Nat :=
  (heap.storages[storage]?.map Array.size).getD 0

/-- An element in a storage. -/
def item? (heap : Heap) (storage : StorageId) (index : Nat) : Option Value :=
  heap.storages[storage]?.bind (·[index]?)

/-- Adds an element at the end of a storage. -/
def pushItem (heap : Heap) (storage : StorageId) (value : Value) : Heap :=
  { heap with storages := heap.storages.modify storage (·.push value) }

/-- Replaces an element in a storage. -/
def setItem (heap : Heap) (storage : StorageId) (index : Nat) (value : Value) : Heap :=
  { heap with storages := heap.storages.modify storage (·.setIfInBounds index value) }

/-! ## 3. Iterators -/

/-- Whether an iterator has an element to give. -/
def hasItems (heap : Heap) : Iterator → Bool
  | .list storage position => position < heap.storageSize storage
  | .linkedList chain => !chain.isEmpty
  | .range current last step => if 0 < step then current < last else current > last

/-- The element that an iterator stands at; a range computes it. -/
def current? (heap : Heap) (iterator : Iterator) : Option Value :=
  if heap.hasItems iterator then
    match iterator with
    | .list storage position => heap.item? storage position
    | .linkedList chain => heap.nodes.first? chain
    | .range current _ _ => some (.number current)
  else none

/-- The iterator behind its current element; one without items stays where it is. -/
def advance (heap : Heap) (iterator : Iterator) : Iterator :=
  if heap.hasItems iterator then
    match iterator with
    | .list storage position => .list storage (position + 1)
    | .linkedList chain => .linkedList (heap.nodes.tail chain)
    | .range current last step => .range (current + step) last step
  else iterator

/-- The iterator that an instance holds. -/
def iterator? (heap : Heap) (id : InstanceId) : Option Iterator :=
  match heap.payload? id with
  | some (.iterator iterator) => some iterator
  | _ => none

end Heap

end Lox
