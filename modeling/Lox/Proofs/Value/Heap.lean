/-
# What is found in the heap after a change

Every change of the heap leaves the classes of instances alone, and what it puts into fields,
payloads, storages and nodes is found there together with what was there before.
-/
import Lox.Value.Heap

namespace Lox

/-! ## 1. Nodes

Nodes are added and linked, and never change their element. -/

namespace Nodes

variable {α : Type}

/-- A new node gets the next number. -/
theorem node?_add (nodes : Nodes α) (node : Node α) (id : NodeId) :
    (nodes.add node).2.node? id = if id = nodes.all.size then some node else nodes.node? id := by
  simp only [node?, add, Array.getElem?_push]
  split <;> rfl

/-- Linking a node does not change its element. -/
theorem element_of_link {nodes : Nodes α} {last next id : NodeId} {node : Node α}
    (h : (nodes.link last next).node? id = some node) :
    ∃ old, nodes.node? id = some old ∧ old.element = node.element := by
  simp only [node?, link, Array.getElem?_modify] at h
  split at h
  · cases hold : nodes.all[id]? with
    | none =>
      rw [hold] at h
      cases h
    | some found =>
      rw [hold] at h
      cases found with
      | none => cases h
      | some old =>
        cases h
        exact ⟨old, by simp only [node?, hold, Option.join_some], rfl⟩
  · exact ⟨node, h, rfl⟩

/-- Pushing an element to the front makes one new node. -/
theorem element_of_push {nodes : Nodes α} {chain : Chain} {element : α} {id : NodeId}
    {node : Node α} (h : (nodes.push chain element).2.node? id = some node) :
    node.element = element ∨ ∃ old, nodes.node? id = some old ∧ old.element = node.element := by
  change (nodes.add ⟨element, chain.head⟩).2.node? id = some node at h
  rw [node?_add] at h
  split at h
  · cases h
    exact Or.inl rfl
  · exact Or.inr ⟨node, h, rfl⟩

/-- Pushing it to the back makes one, and links the last node to it. -/
theorem element_of_pushBack {nodes : Nodes α} {chain : Chain} {element : α} {id : NodeId}
    {node : Node α} (h : (nodes.pushBack chain element).2.node? id = some node) :
    node.element = element ∨ ∃ old, nodes.node? id = some old ∧ old.element = node.element := by
  have added : ∀ {found : Node α}, (nodes.add ⟨element, none⟩).2.node? id = some found →
      found.element = element ∨ ∃ old, nodes.node? id = some old ∧ old.element = found.element := by
    intro found hfound
    rw [node?_add] at hfound
    split at hfound
    · cases hfound
      exact Or.inl rfl
    · exact Or.inr ⟨found, hfound, rfl⟩
  simp only [pushBack] at h
  split at h
  · exact added h
  · obtain ⟨old, hold, helement⟩ := element_of_link h
    rw [← helement]
    exact added hold

/-- The first element of a chain is in its first node. -/
theorem element_of_first? {nodes : Nodes α} {chain : Chain} {element : α}
    (h : nodes.first? chain = some element) :
    ∃ id node, nodes.node? id = some node ∧ node.element = element := by
  simp only [first?, Option.map_eq_some_iff, Option.bind_eq_some_iff] at h
  obtain ⟨node, ⟨id, -, hnode⟩, rfl⟩ := h
  exact ⟨id, node, hnode, rfl⟩

end Nodes

/-! ## 2. Instances

Instances are added, and get fields and payloads. -/

namespace Heap

/-- A new instance gets the next number. -/
theorem class?_add (heap : Heap) (cls : Class) (payload : Option Payload) (id : InstanceId) :
    (heap.add cls payload).2.class? id =
      if id = heap.instances.size then some cls else heap.class? id := by
  simp only [class?, add, Array.getElem?_push]
  split <;> rfl

/-- The instances that there are keep their classes. -/
theorem class?_add_of_some {heap : Heap} {id : InstanceId} {found : Class}
    (h : heap.class? id = some found) (cls : Class) (payload : Option Payload) :
    (heap.add cls payload).2.class? id = some found := by
  have hlt : id < heap.instances.size := by
    simp only [class?, Option.map_eq_some_iff] at h
    obtain ⟨inst, hinst, -⟩ := h
    exact (Array.getElem?_eq_some_iff.1 hinst).1
  rw [class?_add, if_neg (Nat.ne_of_lt hlt), h]

/-- It has no fields. -/
theorem field?_add (heap : Heap) (cls : Class) (payload : Option Payload) (id : InstanceId)
    (name : String) : (heap.add cls payload).2.field? id name = heap.field? id name := by
  simp only [field?, add, Array.getElem?_push]
  split
  · rename_i hid
    rw [hid, Array.getElem?_eq_none (Nat.le_refl _)]
    rfl
  · rfl

theorem payload?_add (heap : Heap) (cls : Class) (payload : Option Payload) (id : InstanceId) :
    (heap.add cls payload).2.payload? id =
      if id = heap.instances.size then payload else heap.payload? id := by
  simp only [payload?, add, Array.getElem?_push]
  split <;> rfl

@[simp] theorem class?_setField (heap : Heap) (self id : InstanceId) (name : String)
    (value : Value) :
    (heap.setField self name value).class? id = heap.class? id := by
  simp only [class?, setField, Array.getElem?_modify]
  split
  · cases heap.instances[id]? <;> rfl
  · rfl

@[simp] theorem payload?_setField (heap : Heap) (self id : InstanceId) (name : String)
    (value : Value) : (heap.setField self name value).payload? id = heap.payload? id := by
  simp only [payload?, setField, Array.getElem?_modify]
  split
  · cases heap.instances[id]? <;> rfl
  · rfl

/-- What is found in a field has been put there, or has been there before. -/
theorem field?_setField {heap : Heap} {self id : InstanceId} {name other : String}
    {value found : Value} (h : (heap.setField self name value).field? id other = some found) :
    found = value ∨ heap.field? id other = some found := by
  simp only [field?, setField, Array.getElem?_modify] at h ⊢
  split at h
  · cases hinst : heap.instances[id]? with
    | none =>
      rw [hinst] at h
      cases h
    | some inst =>
      simp only [hinst, Option.map_some, Option.bind_some, Bindings.get?_insert] at h ⊢
      split at h
      · exact Or.inl (Option.some.inj h).symm
      · exact Or.inr h
  · exact Or.inr h

@[simp] theorem class?_setPayload (heap : Heap) (self id : InstanceId) (payload : Payload) :
    (heap.setPayload self payload).class? id = heap.class? id := by
  simp only [class?, setPayload, Array.getElem?_modify]
  split
  · cases heap.instances[id]? <;> rfl
  · rfl

@[simp] theorem field?_setPayload (heap : Heap) (self id : InstanceId) (payload : Payload)
    (name : String) : (heap.setPayload self payload).field? id name = heap.field? id name := by
  simp only [field?, setPayload, Array.getElem?_modify]
  split
  · cases heap.instances[id]? <;> rfl
  · rfl

/-- What is found as a payload has been put there, or has been there before. -/
theorem payload?_setPayload {heap : Heap} {self id : InstanceId} {payload found : Payload}
    (h : (heap.setPayload self payload).payload? id = some found) :
    self = id ∧ found = payload ∨ heap.payload? id = some found := by
  simp only [payload?, setPayload, Array.getElem?_modify] at h ⊢
  split at h
  · rename_i hself
    cases hinst : heap.instances[id]? with
    | none =>
      rw [hinst] at h
      cases h
    | some inst =>
      rw [hinst] at h
      exact Or.inl ⟨hself, (Option.some.inj h).symm⟩
  · exact Or.inr h

/-! ## 3. Storages

Storages are added, and grow or change at an index. -/

/-- A new storage has the items that it is given. -/
theorem item?_addStorage {heap : Heap} {items : Array Value} {storage : StorageId} {index : Nat}
    {found : Value} (h : (heap.addStorage items).2.item? storage index = some found) :
    found ∈ items ∨ heap.item? storage index = some found := by
  simp only [item?, addStorage, Array.getElem?_push] at h ⊢
  split at h
  · exact Or.inl (Array.mem_of_getElem? h)
  · exact Or.inr h

/-- What is found behind a push has been pushed, or has been there before. -/
theorem item?_pushItem {heap : Heap} {self storage : StorageId} {index : Nat} {value found : Value}
    (h : (heap.pushItem self value).item? storage index = some found) :
    found = value ∨ heap.item? storage index = some found := by
  simp only [item?, pushItem, Array.getElem?_modify] at h ⊢
  split at h
  · cases hitems : heap.storages[storage]? with
    | none =>
      rw [hitems] at h
      cases h
    | some items =>
      simp only [hitems, Option.map_some, Option.bind_some, Array.getElem?_push] at h ⊢
      split at h
      · exact Or.inl (Option.some.inj h).symm
      · exact Or.inr h
  · exact Or.inr h

/-- So it is behind a change at an index. -/
theorem item?_setItem {heap : Heap} {self storage : StorageId} {place index : Nat}
    {value found : Value} (h : (heap.setItem self place value).item? storage index = some found) :
    found = value ∨ heap.item? storage index = some found := by
  simp only [item?, setItem, Array.getElem?_modify] at h ⊢
  split at h
  · cases hitems : heap.storages[storage]? with
    | none =>
      rw [hitems] at h
      cases h
    | some items =>
      simp only [hitems, Option.map_some, Option.bind_some, Array.getElem?_setIfInBounds] at h ⊢
      split at h
      · split at h
        · exact Or.inl (Option.some.inj h).symm
        · cases h
      · exact Or.inr h
  · exact Or.inr h

/-- An iterator is a payload. -/
theorem iterator?_eq_some {heap : Heap} {id : InstanceId} {iterator : Iterator} :
    heap.iterator? id = some iterator ↔ heap.payload? id = some (.iterator iterator) := by
  unfold iterator?
  constructor
  · intro h
    split at h
    · cases h
      assumption
    · cases h
  · intro h
    rw [h]

end Heap

end Lox
