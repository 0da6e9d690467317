/-
# What collections hold is there

In a sturdy heap the payload of a list has a storage, the walk from the head of every linked list
comes to an end, and so does the walk from every node.  Every change of the heap keeps it so
(`Heap.Sturdy.change`).  An element at the end of a chain is put behind a node that has no link yet,
which the memory of the chain leads to even if it is not one of the nodes of the chain.
-/
import Lox.Proofs.Chain.Walk
import Lox.Proofs.Eval.Change

namespace Lox

/-! ## 1. Nodes

Nodes are added, and linked once.  So walks become longer, and never lead around in circles. -/

namespace Nodes

variable {α : Type} {nodes : Nodes α} {chain : Chain}

/-- The walk from every node ends. -/
def Walks (nodes : Nodes α) : Prop :=
  ∀ id node, nodes.node? id = some node → ∃ path, nodes.Walk (some id) path

/-- Walks that end in some nodes also end in others, though perhaps later. -/
def Extends (nodes nodes' : Nodes α) : Prop :=
  ∀ link path, nodes.Walk link path → ∃ path', nodes'.Walk link path'

/-- The last node of a chain has no link. -/
theorem lastNode?_free (walks : nodes.Walks) {path : List (NodeId × α)}
    (h : nodes.Walk chain.head path) {last : NodeId} (found : nodes.lastNode? chain = some last) :
    ∃ node, nodes.node? last = some node ∧ node.next = none := by
  obtain ⟨head, hhead, rfl⟩ := Option.map_eq_some_iff.1 found
  have free : ∀ start path, nodes.Walk (some start) path →
      ∃ node, nodes.node? (nodes.endFrom nodes.all.size start) = some node ∧ node.next = none :=
    fun start path walk =>
      walk.free_of_endOf (endFrom_of_walk walk (Nat.le_succ_of_le walk.length_le)).symm
  have start : ∃ path, nodes.Walk (some head) path := ⟨path, hhead ▸ h⟩
  dsimp only
  split
  · split
    · rename_i remembered there
      obtain ⟨node, hnode⟩ := Option.isSome_iff_exists.1 there
      obtain ⟨path, walk⟩ := walks _ node hnode
      exact free _ path walk
    · exact start.elim (free _)
  · exact start.elim (free _)

/-- A new node has no link, and nothing leads to it. -/
theorem extends_add (nodes : Nodes α) (node : Node α) : nodes.Extends (nodes.add node).2 :=
  fun _ path walk => ⟨path, walk.add node⟩

/-- A chain gets a new first node in front. -/
theorem walk_push {path : List (NodeId × α)} (h : nodes.Walk chain.head path) (element : α) :
    (nodes.push chain element).2.Walk (nodes.push chain element).1.head
      ((nodes.all.size, element) :: path) :=
  Walk.visit (node?_add_self nodes ⟨element, chain.head⟩) (h.add _)

/-- So all walks still end. -/
theorem walks_push (walks : nodes.Walks) {path : List (NodeId × α)}
    (h : nodes.Walk chain.head path) (element : α) : (nodes.push chain element).2.Walks :=
  @walks_add _ _ walks ⟨element, chain.head⟩ _ h

/-- A new element at the end of a chain comes in behind a node without a link, if there is one. -/
theorem pushBack_cases (walks : nodes.Walks) {path : List (NodeId × α)}
    (h : nodes.Walk chain.head path) (element : α) :
    (nodes.pushBack chain element =
        (⟨some nodes.all.size, some nodes.all.size⟩, (nodes.add ⟨element, none⟩).2)) ∨
      ∃ last node, nodes.node? last = some node ∧ node.next = none ∧
        nodes.pushBack chain element = (⟨chain.head, some nodes.all.size⟩,
          (nodes.add ⟨element, none⟩).2.link last nodes.all.size) := by
  cases found : nodes.lastNode? chain with
  | none =>
    refine .inl ?_
    simp only [pushBack, found]
    rfl
  | some last =>
    obtain ⟨node, there, free⟩ := lastNode?_free walks h found
    refine .inr ⟨last, node, there, free, ?_⟩
    simp only [pushBack, found]
    rfl

/-- A new node behind one without a link makes the walks through that one longer. -/
theorem extends_link {last : NodeId} {node : Node α} (there : nodes.node? last = some node)
    (free : node.next = none) (element : α) :
    nodes.Extends ((nodes.add ⟨element, none⟩).2.link last nodes.all.size) :=
  fun _ _ walk =>
    ⟨_, (walk.add _).link (node?_add_of_some there _) free (Walk.of_new there element)⟩

/-- An element at the end of a chain is behind its last node. -/
theorem extends_pushBack (walks : nodes.Walks) {path : List (NodeId × α)}
    (h : nodes.Walk chain.head path) (element : α) :
    nodes.Extends (nodes.pushBack chain element).2 := by
  rcases pushBack_cases walks h element with same | ⟨last, node, there, free, same⟩ <;> rw [same]
  · exact extends_add _ _
  · exact extends_link there free element

/-- The chain itself still ends. -/
theorem walk_pushBack (walks : nodes.Walks) {path : List (NodeId × α)}
    (h : nodes.Walk chain.head path) (element : α) :
    ∃ path', (nodes.pushBack chain element).2.Walk (nodes.pushBack chain element).1.head path' := by
  have onward := extends_pushBack walks h element
  rcases pushBack_cases walks h element with same | ⟨last, node, there, free, same⟩ <;>
    rw [same] at onward ⊢
  · exact ⟨_, Walk.visit (node?_add_self nodes ⟨element, none⟩) .done⟩
  · exact onward _ _ h

/-- So do all other walks. -/
theorem walks_pushBack (walks : nodes.Walks) {path : List (NodeId × α)}
    (h : nodes.Walk chain.head path) (element : α) : (nodes.pushBack chain element).2.Walks := by
  rcases pushBack_cases walks h element with same | ⟨last, node, there, free, same⟩ <;> rw [same]
  · exact @walks_add _ _ walks ⟨element, none⟩ _ .done
  · intro id found hid
    obtain ⟨old, hold, -⟩ := element_of_link hid
    obtain ⟨path, walk⟩ := @walks_add _ _ walks ⟨element, none⟩ _ .done id old hold
    exact ⟨_, walk.link (node?_add_of_some there _) free (Walk.of_new there element)⟩

end Nodes

/-! ## 2. Heaps

All storages and chains that instances hold are there. -/

/-- What the payload of a collection leads to is there. -/
def Payload.Sturdy (heap : Heap) : Payload → Prop
  | .list storage => storage < heap.storages.size
  | .linkedList chain => ∃ path, heap.nodes.Walk chain.head path
  | .iterator _ => True

/-- What every collection leads to is there. -/
structure Heap.Sturdy (heap : Heap) : Prop where
  payloads : ∀ id payload, heap.payload? id = some payload → payload.Sturdy heap
  walks : heap.nodes.Walks

/-- A payload stays sturdy as storages and nodes are added. -/
theorem Payload.Sturdy.mono {heap heap' : Heap} {payload : Payload} (h : payload.Sturdy heap)
    (storages : heap.storages.size ≤ heap'.storages.size)
    (nodes : heap.nodes.Extends heap'.nodes) : payload.Sturdy heap' := by
  cases payload with
  | list storage => exact Nat.lt_of_lt_of_le h storages
  | linkedList chain =>
    obtain ⟨path, walk⟩ := h
    exact nodes _ path walk
  | iterator iterator => trivial

namespace Heap

/-- An empty heap is sturdy. -/
theorem sturdy_empty : empty.Sturdy := by
  refine ⟨fun id payload found => ?_, fun id node found => ?_⟩
  · simp [payload?, empty] at found
  · simp [Nodes.node?, empty, Nodes.empty] at found

variable {heap heap' : Heap}

namespace Sturdy

/-- A heap with one more payload, or one other payload, is sturdy if that payload is. -/
theorem extend (h : heap.Sturdy) {payload : Payload}
    (storages : heap.storages.size ≤ heap'.storages.size) (nodes : heap.nodes.Extends heap'.nodes)
    (walks : heap'.nodes.Walks) (sturdy : payload.Sturdy heap')
    (payloads : ∀ id found, heap'.payload? id = some found →
      found = payload ∨ heap.payload? id = some found) : heap'.Sturdy := by
  refine ⟨fun id found hfound => ?_, walks⟩
  rcases payloads id found hfound with rfl | old
  · exact sturdy
  · exact (h.payloads id found old).mono storages nodes

/-- So is one with the same payloads. -/
theorem of_same (h : heap.Sturdy) (storages : heap'.storages.size = heap.storages.size)
    (nodes : heap'.nodes = heap.nodes) (payloads : ∀ id, heap'.payload? id = heap.payload? id) :
    heap'.Sturdy := by
  refine ⟨fun id found hfound => ?_, nodes ▸ h.walks⟩
  rw [payloads] at hfound
  exact (h.payloads id found hfound).mono (Nat.le_of_eq storages.symm)
    (nodes ▸ fun _ path walk => ⟨path, walk⟩)

/-- A payload has to be sturdy when it is set. -/
theorem setPayload (h : heap.Sturdy) (id : InstanceId) {payload : Payload}
    (sturdy : payload.Sturdy heap) : (heap.setPayload id payload).Sturdy :=
  h.extend (Nat.le_refl _) (fun _ path walk => ⟨path, walk⟩) h.walks sturdy fun _ _ found =>
    (payload?_setPayload found).imp_left And.right

theorem add (h : heap.Sturdy) (cls : Class) {payload : Payload} (sturdy : payload.Sturdy heap) :
    (heap.add cls (some payload)).2.Sturdy := by
  refine h.extend (Nat.le_refl _) (fun _ path walk => ⟨path, walk⟩) h.walks sturdy ?_
  intro id found hfound
  rw [payload?_add] at hfound
  split at hfound
  · exact .inl (Option.some.inj hfound).symm
  · exact .inr hfound

/-- A new storage is there for the list that gets it. -/
theorem addStorage (h : heap.Sturdy) (items : Array Value) : (heap.addStorage items).2.Sturdy :=
  ⟨fun id payload found => (h.payloads id payload found).mono
    (by simp [Heap.addStorage]) fun _ path walk => ⟨path, walk⟩, h.walks⟩

theorem lt_addStorage (heap : Heap) (items : Array Value) :
    (Payload.list (heap.addStorage items).1).Sturdy (heap.addStorage items).2 := by
  simp [Payload.Sturdy, Heap.addStorage]

/-- The nodes of a sturdy heap may be replaced by others that walks go on in. -/
theorem setNodes (h : heap.Sturdy) {nodes : Nodes Value} (extended : heap.nodes.Extends nodes)
    (walks : nodes.Walks) : Sturdy { heap with nodes := nodes } :=
  ⟨fun id payload found => (h.payloads id payload found).mono (Nat.le_refl _) extended, walks⟩

/-- **Every change of the heap keeps it sturdy.** -/
theorem change (h : heap.Sturdy) (changed : heap.Change heap') : heap'.Sturdy := by
  cases changed with
  | setField id name value => exact h.of_same rfl rfl fun id => payload?_setField ..
  | newInstance cls =>
    refine h.of_same rfl rfl fun id => ?_
    rw [payload?_add]
    split
    · rename_i new
      simp [new, payload?]
    · rfl
  | newList items => exact (h.addStorage items).add _ (lt_addStorage heap items)
  | initList id => exact (h.addStorage #[]).setPayload id (lt_addStorage heap #[])
  | initLinked id => exact h.setPayload id ⟨[], .done⟩
  | initRange id first last step => exact h.setPayload id trivial
  | pushItem held value => exact h.of_same Array.size_modify rfl fun _ => rfl
  | setItem held index value => exact h.of_same Array.size_modify rfl fun _ => rfl
  | @push id chain held value =>
    obtain ⟨path, walk⟩ := h.payloads id _ held
    exact (h.setNodes (Nodes.extends_add _ _) (Nodes.walks_push h.walks walk value)).setPayload id
      ⟨_, Nodes.walk_push walk value⟩
  | @pushBack id chain held value =>
    obtain ⟨path, walk⟩ := h.payloads id _ held
    have nodes := h.setNodes (Nodes.extends_pushBack h.walks walk value)
      (Nodes.walks_pushBack h.walks walk value)
    exact nodes.setPayload id (Nodes.walk_pushBack h.walks walk value)
  | iterateList held => exact h.add _ trivial
  | iterateLinked held => exact h.add _ trivial
  | advance held => exact h.setPayload _ trivial

end Sturdy

end Heap

end Lox
