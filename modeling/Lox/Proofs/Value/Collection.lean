/-
# Collections keep apart

A list has its elements in a storage, which its iterators share; a linked list has them in nodes,
which its iterators share as well, together with the memory of a last node.  Yet two collections
have nothing in common (`Heap.Apart`): lists have storages of their own (`Heap.Stored`), and the
chains of linked lists and of their iterators show strands (`Heap.Spins`), of which no two that
belong to linked lists have a label in common.  Every change of the heap keeps them apart
(`Heap.Apart.change`).

Operations change an instance other than their own by no more than putting an element at the end of
what it shows (`Heap.Spins.changes`), and only if it is an iterator of theirs.
-/
import Lox.Proofs.Chain.Strand
import Lox.Proofs.Eval.Operation

namespace Lox

/-- The chain of a linked list, or of an iterator of one. -/
def Payload.chain? : Payload → Option Chain
  | .linkedList chain | .iterator (.linkedList chain) => some chain
  | _ => none

namespace Nodes

variable {α : Type} {nodes : Nodes α} {chain : Chain}

/-- What is put in front of an empty chain is a chain of its own. -/
theorem push_of_isEmpty (empty : chain.isEmpty = true) (element : α) :
    nodes.push chain element =
      (⟨some nodes.all.size, some nodes.all.size⟩, (nodes.add ⟨element, none⟩).2) := by
  have head := Option.isNone_iff_eq_none.1 empty
  simp only [push, empty, head, if_true]
  rfl

/-- And so is what is put at the end of one. -/
theorem pushBack_of_isEmpty (empty : chain.isEmpty = true) (element : α) :
    nodes.pushBack chain element =
      (⟨some nodes.all.size, some nodes.all.size⟩, (nodes.add ⟨element, none⟩).2) := by
  have head := Option.isNone_iff_eq_none.1 empty
  simp only [pushBack, lastNode?, head, Option.map_none]
  rfl

end Nodes

namespace Heap

open Nodes

variable {heap heap' : Heap}

/-! ## 1. Elements

What a storage holds, before and after each change. -/

/-- The elements in a storage. -/
def elements (heap : Heap) (storage : StorageId) : List Value :=
  (heap.storages[storage]?.getD #[]).toList

/-- The elements of the collection that an instance holds; other instances have none. -/
def contents (heap : Heap) (id : InstanceId) : List Value :=
  match heap.payload? id with
  | some (.list storage) => heap.elements storage
  | some (.linkedList chain) => heap.nodes.toList chain
  | _ => []

/-- The size of a storage is the number of its elements. -/
theorem storageSize_eq (heap : Heap) (storage : StorageId) :
    heap.storageSize storage = (heap.elements storage).length := by
  unfold storageSize elements
  cases heap.storages[storage]? <;> rfl

/-- An item of a storage is an element. -/
theorem item?_eq (heap : Heap) (storage : StorageId) (i : Nat) :
    heap.item? storage i = (heap.elements storage)[i]? := by
  unfold item? elements
  cases heap.storages[storage]? <;> simp

/-- A push puts an element at the end of one storage. -/
theorem elements_pushItem {storage : StorageId} (known : storage < heap.storages.size)
    (value : Value) (other : StorageId) :
    (heap.pushItem storage value).elements other =
      if storage = other then heap.elements storage ++ [value] else heap.elements other := by
  unfold elements pushItem
  rw [Array.getElem?_modify]
  split
  · rename_i same
    subst same
    simp [Array.getElem?_eq_getElem known]
  · rfl

/-- A change at an index changes one element of one storage. -/
theorem elements_setItem (heap : Heap) (storage : StorageId) (i : Nat) (value : Value)
    (other : StorageId) :
    (heap.setItem storage i value).elements other =
      if storage = other then (heap.elements storage).set i value else heap.elements other := by
  unfold elements setItem
  rw [Array.getElem?_modify]
  split
  · rename_i same
    subst same
    cases heap.storages[storage]? <;> simp
  · rfl

/-- A new storage changes no other one. -/
theorem elements_addStorage {storage : StorageId} (known : storage < heap.storages.size)
    (items : Array Value) : (heap.addStorage items).2.elements storage = heap.elements storage := by
  unfold elements addStorage
  rw [Array.getElem?_push, if_neg (Nat.ne_of_lt known)]

/-- The payload that has been set is found, or there is no such instance; the others are as
before. -/
theorem payload?_setPayload_eq {self id : InstanceId} {payload found : Payload}
    (h : (heap.setPayload self payload).payload? id = some found) :
    (id = self ∧ found = payload) ∨ (id ≠ self ∧ heap.payload? id = some found) := by
  by_cases same : id = self
  · subst same
    rcases payload?_setPayload h with ⟨-, rfl⟩ | old
    · exact .inl ⟨rfl, rfl⟩
    · obtain ⟨inst, found, -⟩ := Option.bind_eq_some_iff.1 old
      have cls : heap.class? id = some inst.cls := by rw [class?, found, Option.map_some]
      rw [payload?_setPayload_self cls] at h
      exact .inl ⟨rfl, (Option.some.inj h).symm⟩
  · exact .inr ⟨same, (payload?_setPayload_of_ne (Ne.symm same) payload).symm.trans h⟩

/-- An instance that holds something holds what it is given instead. -/
theorem payload?_setPayload_held {self : InstanceId} {old : Payload}
    (held : heap.payload? self = some old) (payload : Payload) :
    (heap.setPayload self payload).payload? self = some payload := by
  obtain ⟨inst, found, -⟩ := Option.bind_eq_some_iff.1 held
  have cls : heap.class? self = some inst.cls := by rw [class?, found, Option.map_some]
  exact payload?_setPayload_self cls payload

/-- To be given what it holds changes nothing for an instance. -/
theorem setPayload_held {self : InstanceId} {payload : Payload}
    (held : heap.payload? self = some payload) : heap.setPayload self payload = heap := by
  obtain ⟨inst, found, holds⟩ := Option.bind_eq_some_iff.1 held
  have same : heap.instances.modify self (fun inst => { inst with payload := some payload }) =
      heap.instances := by
    refine Array.ext_getElem? fun i => ?_
    rw [Array.getElem?_modify]
    split
    · rename_i on
      subst on
      rw [found, Option.map_some, ← holds]
    · rfl
  rw [setPayload, same]

/-! ## 2. Lists

A list and its iterators share a storage, and no two lists do. -/

/-- Each list has a storage of its own. -/
structure Stored (heap : Heap) : Prop where
  known : ∀ id storage, heap.payload? id = some (.list storage) → storage < heap.storages.size
  own : ∀ id id' storage, heap.payload? id = some (.list storage) →
    heap.payload? id' = some (.list storage) → id = id'

namespace Stored

/-- Storages are kept apart as long as no list gets a storage that another one has. -/
theorem of_payloads (h : heap.Stored) (size : heap.storages.size ≤ heap'.storages.size)
    (payloads : ∀ id storage, heap'.payload? id = some (.list storage) →
      heap.payload? id = some (.list storage)) : heap'.Stored where
  known id storage found := Nat.lt_of_lt_of_le (h.known id storage (payloads id storage found)) size
  own id id' storage found found' :=
    h.own id id' storage (payloads id storage found) (payloads id' storage found')

/-- One more storage, for one instance. -/
theorem of_new (h : heap.Stored) (self : InstanceId)
    (size : heap'.storages.size = heap.storages.size + 1)
    (payloads : ∀ id storage, heap'.payload? id = some (.list storage) →
      heap.payload? id = some (.list storage) ∨ id = self ∧ storage = heap.storages.size) :
    heap'.Stored where
  known id storage found := by
    rcases payloads id storage found with old | ⟨-, rfl⟩
    · exact size ▸ Nat.lt_succ_of_lt (h.known id storage old)
    · exact size ▸ Nat.lt_succ_self _
  own id id' storage found found' := by
    rcases payloads id storage found with old | ⟨rfl, rfl⟩ <;>
      rcases payloads id' _ found' with old' | ⟨rfl, new'⟩
    · exact h.own id id' storage old old'
    · exact absurd (h.known id storage old) (new' ▸ Nat.lt_irrefl _)
    · exact absurd (h.known id' _ old') (Nat.lt_irrefl _)
    · rfl

/-- So every change of the heap keeps them apart. -/
theorem change (h : heap.Stored) (changed : heap.Change heap') : heap'.Stored := by
  have added : ∀ {cls : Class} {iterator : Iterator},
      Stored (heap.add cls (some (.iterator iterator))).2 := by
    intro cls iterator
    refine h.of_payloads (Nat.le_refl _) fun id storage found => ?_
    rw [payload?_add] at found
    split at found
    · cases found
    · exact found
  have set : ∀ {self : InstanceId} {payload : Payload} {nodes : Nodes Value},
      (∀ storage, payload ≠ .list storage) →
      Stored (Heap.setPayload { heap with nodes := nodes } self payload) := by
    intro self payload nodes other
    refine h.of_payloads (Nat.le_refl _) fun id storage found => ?_
    rcases payload?_setPayload found with ⟨-, rfl⟩ | old
    · exact absurd rfl (other storage)
    · exact old
  cases changed with
  | setField id name value =>
    refine h.of_payloads (Nat.le_refl _) fun id storage found => ?_
    rwa [payload?_setField] at found
  | newInstance cls =>
    refine h.of_payloads (Nat.le_refl _) fun id storage found => ?_
    rw [payload?_add] at found
    split at found
    · cases found
    · exact found
  | newList items =>
    refine h.of_new heap.instances.size (Array.size_push _) fun id storage found => ?_
    rw [payload?_add] at found
    split at found
    · cases found
      exact .inr ⟨‹_›, rfl⟩
    · exact .inl found
  | initList id =>
    refine h.of_new id (Array.size_push _) fun id' storage found => ?_
    rcases payload?_setPayload found with ⟨rfl, same⟩ | old
    · cases same
      exact .inr ⟨rfl, rfl⟩
    · exact .inl old
  | initLinked id => exact set nofun
  | initRange id first last step => exact set nofun
  | pushItem held value =>
    exact h.of_payloads (Nat.le_of_eq Array.size_modify.symm) fun _ _ found => found
  | setItem held i value =>
    exact h.of_payloads (Nat.le_of_eq Array.size_modify.symm) fun _ _ found => found
  | push held value => exact set nofun
  | pushBack held value => exact set nofun
  | iterateList held => exact added
  | iterateLinked held => exact added
  | advance held => exact set nofun

end Stored

/-! ## 3. Linked lists

Chains are tied to strands, of which each linked list has its own. -/

/-- The chain that an instance holds, be it a linked list or an iterator of one. -/
def chain? (heap : Heap) (id : InstanceId) : Option Chain := (heap.payload? id).bind Payload.chain?

/-- The chain of a linked list. -/
theorem chain?_of_linkedList {id : InstanceId} {chain : Chain}
    (held : heap.payload? id = some (.linkedList chain)) : heap.chain? id = some chain := by
  rw [chain?, held]
  rfl

theorem chain?_of_iterator {id : InstanceId} {chain : Chain}
    (held : heap.payload? id = some (.iterator (.linkedList chain))) :
    heap.chain? id = some chain := by
  rw [chain?, held]
  rfl

/-- Where a chain is put, and where nothing changes. -/
theorem payload?_setChain {self : InstanceId} {payload : Payload}
    (held : heap.payload? self = some payload) (changed : Chain × Nodes Value) (id : InstanceId) :
    (heap.setChain self changed).payload? id =
      if id = self then some (.linkedList changed.1) else heap.payload? id := by
  split
  · rename_i same
    subst same
    have same : Heap.payload? { heap with nodes := changed.2 } id = some payload := held
    exact payload?_setPayload_held same _
  · rename_i ne
    exact payload?_setPayload_of_ne (Ne.symm ne) _

theorem chain?_setChain {self : InstanceId} {payload : Payload}
    (held : heap.payload? self = some payload) (changed : Chain × Nodes Value) :
    (heap.setChain self changed).chain? self = some changed.1 :=
  chain?_of_linkedList ((payload?_setChain held changed self).trans (if_pos rfl))

/-- Each chain shows a strand.  Linked lists that are not empty have labels of their own. -/
structure Spins (heap : Heap) (ends : Nat → NodeId) (labels : Nat)
    (strand : InstanceId → Strand Value) : Prop where
  shows : ∀ id chain, heap.chain? id = some chain → Shows heap.nodes ends chain (strand id)
  known : ∀ id chain, heap.chain? id = some chain → (strand id).items ≠ [] →
    (strand id).label < labels
  labelled : Labelled ends labels heap.nodes.all.size
  own : ∀ id id' chain chain', heap.payload? id = some (.linkedList chain) →
    heap.payload? id' = some (.linkedList chain') → (strand id).items ≠ [] →
    (strand id').items ≠ [] → (strand id).label = (strand id').label → id = id'

namespace Spins

variable {ends ends' : Nat → NodeId} {labels labels' : Nat} {strand : InstanceId → Strand Value}

/-- The elements of a linked list are those of its strand. -/
theorem contents_eq (h : heap.Spins ends labels strand) {id : InstanceId} {chain : Chain}
    (held : heap.payload? id = some (.linkedList chain)) :
    heap.contents id = (strand id).items := by
  rw [contents, held]
  exact (h.shows id chain (chain?_of_linkedList held)).toList_eq

/-- **One instance holds another chain**, while all other chains show what `others` makes of their
strands.  If it is that of a linked list that is not empty, its label is the old one, or new. -/
theorem replace (h : heap.Spins ends labels strand) (self : InstanceId) (own : Strand Value)
    (others : Strand Value → Strand Value)
    (payloads : ∀ id, id ≠ self → heap'.payload? id = heap.payload? id)
    (shown : ∀ chain strand, Shows heap.nodes ends chain strand →
      (strand.items ≠ [] → strand.label < labels) →
      Shows heap'.nodes ends' chain (others strand))
    (label : ∀ strand, (others strand).label = strand.label)
    (nonempty : ∀ strand, (others strand).items ≠ [] → strand.items ≠ [])
    (labelled : Labelled ends' labels' heap'.nodes.all.size) (le : labels ≤ labels')
    (shows : ∀ chain, heap'.chain? self = some chain → Shows heap'.nodes ends' chain own)
    (known : ∀ chain, heap'.chain? self = some chain → own.items ≠ [] → own.label < labels')
    (alone : ∀ chain, heap'.payload? self = some (.linkedList chain) → own.items ≠ [] →
      labels ≤ own.label ∨ (∃ chain, heap.payload? self = some (.linkedList chain)) ∧
        (strand self).items ≠ [] ∧ own.label = (strand self).label) :
    heap'.Spins ends' labels' (Function.update (fun id => others (strand id)) self own) := by
  have chains : ∀ id, id ≠ self → heap'.chain? id = heap.chain? id := by
    intro id ne
    rw [chain?, chain?, payloads id ne]
  have rest : ∀ id, id ≠ self → Function.update (fun id => others (strand id)) self own id =
      others (strand id) := fun id ne => Function.update_of_ne ne _ _
  have bound : ∀ id chain, id ≠ self → heap'.payload? id = some (.linkedList chain) →
      (others (strand id)).items ≠ [] → (strand id).label < labels := by
    intro id chain ne held items
    exact h.known id chain (chain?_of_linkedList ((payloads id ne).symm.trans held))
      (nonempty _ items)
  -- the label of another list is neither new nor the old one of this instance
  have differ : ∀ id chain chain', id ≠ self → heap'.payload? self = some (.linkedList chain) →
      heap'.payload? id = some (.linkedList chain') → own.items ≠ [] →
      (others (strand id)).items ≠ [] → own.label ≠ (others (strand id)).label := by
    intro id chain chain' ne held held' items items' same
    rw [label] at same
    rcases alone chain held items with fresh | ⟨⟨before, was⟩, items₀, kept⟩
    · exact absurd (bound id chain' ne held' items') (by omega)
    · exact ne (h.own self id before chain' was ((payloads id ne).symm.trans held') items₀
        (nonempty _ items') (kept.symm.trans same)).symm
  constructor
  case shows =>
    intro id chain found
    by_cases same : id = self
    · subst same
      rw [Function.update_self]
      exact shows chain found
    · rw [rest id same]
      rw [chains id same] at found
      exact shown chain _ (h.shows id chain found) (h.known id chain found)
  case known =>
    intro id chain found items
    by_cases same : id = self
    · subst same
      rw [Function.update_self] at items ⊢
      exact known chain found items
    · rw [rest id same] at items ⊢
      rw [chains id same] at found
      rw [label]
      exact Nat.lt_of_lt_of_le (h.known id chain found (nonempty _ items)) le
  case labelled => exact labelled
  case own =>
    intro id id' chain chain' held held' items items' same
    by_cases first : id = self <;> by_cases second : id' = self
    · exact first.trans second.symm
    · subst first
      rw [Function.update_self] at items same
      rw [rest id' second] at items' same
      exact absurd same (differ id' chain chain' second held held' items items')
    · subst second
      rw [Function.update_self] at items' same
      rw [rest id first] at items same
      exact absurd same.symm (differ id chain' chain first held' held items' items)
    · rw [rest id first] at items same
      rw [rest id' second] at items' same
      rw [label, label] at same
      exact h.own id id' chain chain' ((payloads id first).symm.trans held)
        ((payloads id' second).symm.trans held') (nonempty _ items) (nonempty _ items') same

/-- The nodes are the same, and so are all payloads but one. -/
theorem replace_one (h : heap.Spins ends labels strand) (self : InstanceId) (own : Strand Value)
    (nodes : heap'.nodes = heap.nodes)
    (payloads : ∀ id, id ≠ self → heap'.payload? id = heap.payload? id)
    (shows : ∀ chain, heap'.chain? self = some chain → Shows heap.nodes ends chain own)
    (known : ∀ chain, heap'.chain? self = some chain → own.items ≠ [] → own.label < labels)
    (alone : ∀ chain, heap'.payload? self = some (.linkedList chain) → own.items = []) :
    heap'.Spins ends labels (Function.update strand self own) :=
  h.replace self own id payloads (fun _ _ shown _ => nodes ▸ shown) (fun _ => rfl) (fun _ => id)
    (nodes ▸ h.labelled) (Nat.le_refl _) (fun chain found => nodes ▸ shows chain found) known
    fun chain held items => absurd (alone chain held) items

/-- An instance holds no chain, or none any more. -/
theorem replace_none (h : heap.Spins ends labels strand) (self : InstanceId)
    (nodes : heap'.nodes = heap.nodes)
    (payloads : ∀ id, id ≠ self → heap'.payload? id = heap.payload? id)
    (none : heap'.chain? self = none) :
    heap'.Spins ends labels (Function.update strand self ⟨[], 0⟩) :=
  h.replace_one self ⟨[], 0⟩ nodes payloads (fun _ found => by rw [none] at found; cases found)
    (fun _ _ items => absurd rfl items) fun _ _ => rfl

/-- The nodes and all payloads are the same. -/
theorem of_same (h : heap.Spins ends labels strand) (nodes : heap'.nodes = heap.nodes)
    (payloads : ∀ id, heap'.payload? id = heap.payload? id) : heap'.Spins ends labels strand := by
  have chains : ∀ id, heap'.chain? id = heap.chain? id := fun id => by
    rw [chain?, chain?, payloads]
  constructor
  case shows =>
    intro id chain found
    rw [nodes]
    exact h.shows id chain ((chains id).symm.trans found)
  case known => exact fun id chain found => h.known id chain ((chains id).symm.trans found)
  case labelled => exact nodes ▸ h.labelled
  case own =>
    intro id id' chain chain' held held'
    exact h.own id id' chain chain' ((payloads id).symm.trans held)
      ((payloads id').symm.trans held')

/-- An instance is made that holds no chain. -/
theorem add (h : heap.Spins ends labels strand) (cls : Class) {payload : Option Payload}
    (none : payload.bind Payload.chain? = none) : (heap.add cls payload).2.Spins ends labels
      (Function.update strand heap.instances.size ⟨[], 0⟩) := by
  refine h.replace_none heap.instances.size rfl ?_ ?_
  · intro id ne
    rw [payload?_add, if_neg ne]
  · rw [chain?, payload?_add, if_pos rfl, none]

/-- An instance is given something else than a chain. -/
theorem setPayload (h : heap.Spins ends labels strand) (self : InstanceId) {payload : Payload}
    (none : payload.chain? = none) :
    (heap.setPayload self payload).Spins ends labels (Function.update strand self ⟨[], 0⟩) := by
  refine h.replace_none self rfl ?_ ?_
  · intro id ne
    exact payload?_setPayload_of_ne (Ne.symm ne) _
  · rw [chain?, Option.bind_eq_none_iff]
    intro found hfound
    rcases payload?_setPayload_eq hfound with ⟨-, rfl⟩ | ⟨ne, -⟩
    · exact none
    · exact absurd rfl ne

/-- A linked list becomes empty. -/
theorem init (h : heap.Spins ends labels strand) (self : InstanceId) :
    (heap.setPayload self (.linkedList .empty)).Spins ends labels
      (Function.update strand self ⟨[], 0⟩) := by
  have empty : ∀ chain, (heap.setPayload self (.linkedList .empty)).chain? self = some chain →
      chain = .empty := by
    intro chain found
    obtain ⟨payload, hpayload, hchain⟩ := Option.bind_eq_some_iff.1 found
    rcases payload?_setPayload_eq hpayload with ⟨-, rfl⟩ | ⟨ne, -⟩
    · exact (Option.some.inj hchain).symm
    · exact absurd rfl ne
  refine h.replace_one self _ rfl ?_ ?_ ?_ ?_
  · intro id ne
    exact payload?_setPayload_of_ne (Ne.symm ne) _
  · intro chain found
    rw [empty chain found]
    exact .blank ..
  · intro _ _ items
    exact absurd rfl items
  · intro _ _
    rfl

section Linked

variable {self : InstanceId} {chain : Chain}

/-- A linked list that is empty gets its first element, whose label is new. -/
theorem start (h : heap.Spins ends labels strand) {payload : Payload}
    (held : heap.payload? self = some payload) (value : Value) :
    (heap.setChain self (⟨some heap.nodes.all.size, some heap.nodes.all.size⟩,
      (heap.nodes.add ⟨value, none⟩).2)).Spins (Function.update ends labels heap.nodes.all.size)
      (labels + 1) (Function.update strand self ⟨[value], labels⟩) := by
  have chains := chain?_setChain held
    (⟨some heap.nodes.all.size, some heap.nodes.all.size⟩, (heap.nodes.add ⟨value, none⟩).2)
  have size := size_add heap.nodes ⟨value, none⟩
  refine h.replace self ⟨[value], labels⟩ id ?_ ?_ (fun _ => rfl) (fun _ => id) ?_
    (Nat.le_succ _) ?_ ?_ ?_
  · intro id ne
    exact (payload?_setChain held _ id).trans (if_neg ne)
  · intro chain strand shows bound
    refine shows.add _ fun items => ?_
    rw [Function.update_of_ne (Nat.ne_of_lt (bound items))]
  · change Labelled _ _ (heap.nodes.add ⟨value, none⟩).2.all.size
    rw [size]
    exact h.labelled.update fun a lt ne => by omega
  · intro chain found
    obtain rfl := Option.some.inj (chains.symm.trans found)
    exact .single heap.nodes value (Function.update_self ..)
  · intro _ _ _
    exact Nat.lt_succ_self _
  · intro _ _ _
    exact .inl (Nat.le_refl _)

/-- A linked list that is not empty gets another element in front. -/
theorem push (h : heap.Spins ends labels strand)
    (held : heap.payload? self = some (.linkedList chain)) (nonempty : (strand self).items ≠ [])
    (value : Value) :
    (heap.setChain self (heap.nodes.push chain value)).Spins ends labels
      (Function.update strand self ⟨value :: (strand self).items, (strand self).label⟩) := by
  have found := chain?_of_linkedList held
  have shows := h.shows self chain found
  have items : chain.isEmpty = false :=
    Bool.eq_false_iff.2 fun empty => nonempty (shows.isEmpty_iff.1 empty)
  have pushed : heap.nodes.push chain value = (⟨some heap.nodes.all.size, chain.last⟩,
      (heap.nodes.add ⟨value, chain.head⟩).2) := by
    simp only [Nodes.push, items, Bool.false_eq_true, if_false]
    rfl
  have chains := chain?_setChain held (heap.nodes.push chain value)
  rw [pushed] at chains ⊢
  refine h.replace self _ id ?_ ?_ (fun _ => rfl) (fun _ => id) ?_ (Nat.le_refl _) ?_ ?_ ?_
  · intro id ne
    exact (payload?_setChain held _ id).trans (if_neg ne)
  · intro chain strand shows _
    exact shows.add _ fun _ => rfl
  · change Labelled _ _ (heap.nodes.add ⟨value, chain.head⟩).2.all.size
    rw [size_add]
    exact ⟨fun label lt => Nat.lt_succ_of_lt (h.labelled.known label lt), h.labelled.injective⟩
  · intro chain' found'
    obtain rfl := Option.some.inj (chains.symm.trans found')
    exact shows.push nonempty value
  · intro _ _ _
    exact h.known self chain found nonempty
  · intro _ _ _
    exact .inr ⟨⟨chain, held⟩, nonempty, rfl⟩

/-- A linked list that is not empty gets another element at the end, and so do the chains that run
into the same node. -/
theorem pushBack (h : heap.Spins ends labels strand)
    (held : heap.payload? self = some (.linkedList chain)) (nonempty : (strand self).items ≠ [])
    (value : Value) :
    (heap.setChain self (heap.nodes.pushBack chain value)).Spins
      (Function.update ends (strand self).label heap.nodes.all.size) labels
      (Function.update (fun id => (strand id).extend (strand self).label value) self
        ⟨(strand self).items ++ [value], (strand self).label⟩) := by
  have found := chain?_of_linkedList held
  have shows := h.shows self chain found
  have bound := h.known self chain found nonempty
  have pushed : heap.nodes.pushBack chain value = (⟨chain.head, some heap.nodes.all.size⟩,
      (heap.nodes.add ⟨value, none⟩).2.link (ends (strand self).label) heap.nodes.all.size) := by
    simp only [Nodes.pushBack, shows.lastNode?_eq nonempty]
    rfl
  -- the node at the end has no link yet
  obtain ⟨path, walk, items, ended⟩ := shows.walk
  have path_ne : path ≠ [] := by
    rintro rfl
    exact nonempty items.symm
  obtain ⟨last, there, free⟩ := walk.free_of_endOf (ended path_ne)
  have extended : ∀ chain strand', Shows heap.nodes ends chain strand' →
      (strand'.items ≠ [] → strand'.label < labels) →
      Shows ((heap.nodes.add ⟨value, none⟩).2.link (ends (strand self).label) heap.nodes.all.size)
        (Function.update ends (strand self).label heap.nodes.all.size) chain
        (strand'.extend (strand self).label value) :=
    fun chain strand' shows' known => shows'.extend there free h.labelled bound known
  have own : (strand self).extend (strand self).label value =
      ⟨(strand self).items ++ [value], (strand self).label⟩ := by
    rw [Strand.extend, if_pos ⟨nonempty, rfl⟩]
  have chains := chain?_setChain held (heap.nodes.pushBack chain value)
  rw [pushed] at chains ⊢
  refine h.replace self _ (Strand.extend (strand self).label value) ?_ extended ?_ ?_ ?_
    (Nat.le_refl _) ?_ ?_ ?_
  · intro id ne
    exact (payload?_setChain held _ id).trans (if_neg ne)
  · intro strand'
    unfold Strand.extend
    split <;> rfl
  · intro strand' items'
    unfold Strand.extend at items'
    split at items'
    · exact (‹_ ∧ _›).1
    · exact items'
  · change Labelled _ _ (Nodes.link _ _ _).all.size
    rw [size_link, size_add]
    exact h.labelled.update fun a lt _ => lt
  · intro chain' found'
    obtain rfl := Option.some.inj (chains.symm.trans found')
    -- the chain itself remembers the new node from now on
    refine ⟨own ▸ (extended chain _ shows fun _ => bound).walk, fun last hlast => ?_,
      fun last hlast _ _ => ?_⟩
    · cases hlast
      change _ < (Nodes.link _ _ _).all.size
      rw [size_link, size_add]
      exact Nat.lt_succ_self _
    · cases hlast
      refine ⟨_, Walk.of_new there value, ?_⟩
      rw [Function.update_self]
      rfl
  · intro _ _ _
    exact bound
  · intro _ _ _
    exact .inr ⟨⟨chain, held⟩, nonempty, rfl⟩

/-- A step of an iterator drops an element, if there is one. -/
theorem advance (h : heap.Spins ends labels strand)
    (held : heap.payload? self = some (.iterator (.linkedList chain))) :
    (heap.setPayload self (.iterator (heap.advance (.linkedList chain)))).Spins ends labels
      (Function.update strand self ⟨(strand self).items.tail, (strand self).label⟩) := by
  have found := chain?_of_iterator held
  have shows := h.shows self chain found
  obtain ⟨stepped, step, shows'⟩ : ∃ stepped,
      heap.advance (.linkedList chain) = .linkedList stepped ∧
      Shows heap.nodes ends stepped ⟨(strand self).items.tail, (strand self).label⟩ := by
    rw [Heap.advance]
    split
    · exact ⟨_, rfl, shows.tail⟩
    · rename_i none_left
      have empty : (strand self).items = [] :=
        shows.isEmpty_iff.1 (by simpa [hasItems] using none_left)
      refine ⟨chain, rfl, ?_⟩
      have same : (⟨(strand self).items.tail, (strand self).label⟩ : Strand Value) =
          strand self := by
        rw [empty, List.tail_nil, ← empty]
      rw [same]
      exact shows
  rw [step]
  have now := payload?_setPayload_held held (.iterator (.linkedList stepped))
  refine h.replace_one self _ rfl ?_ ?_ ?_ ?_
  · intro id ne
    exact payload?_setPayload_of_ne (Ne.symm ne) _
  · intro chain' found'
    obtain rfl := Option.some.inj ((chain?_of_iterator now).symm.trans found')
    exact shows'
  · intro _ _ items
    exact h.known self chain found fun empty => items (by rw [empty]; rfl)
  · intro chain' held'
    cases now.symm.trans held'

/-- A new iterator of a linked list shows what the linked list shows. -/
theorem iterate (h : heap.Spins ends labels strand)
    (held : heap.payload? self = some (.linkedList chain)) (cls : Class) :
    (heap.add cls (some (.iterator (.linkedList chain)))).2.Spins ends labels
      (Function.update strand heap.instances.size (strand self)) := by
  have found := chain?_of_linkedList held
  have now : (heap.add cls (some (.iterator (.linkedList chain)))).2.payload? heap.instances.size =
      some (.iterator (.linkedList chain)) := by
    rw [payload?_add, if_pos rfl]
  refine h.replace_one heap.instances.size _ rfl ?_ ?_ ?_ ?_
  · intro id ne
    rw [payload?_add, if_neg ne]
  · intro chain' found'
    obtain rfl := Option.some.inj ((chain?_of_iterator now).symm.trans found')
    exact h.shows self chain found
  · intro _ _ items
    exact h.known self chain found items
  · intro chain' held'
    cases now.symm.trans held'

end Linked

end Spins

/-! ## 4. Changes

Both halves together, for each change that a run makes. -/

/-- What an instance holds is what it held before, unless the operation is one on it. -/
theorem payload?_of_changes {operation : Operation} (changes : operation.Changes heap heap')
    {id : InstanceId} (ne : id ≠ operation.self) {payload : Payload}
    (held : heap.payload? id = some payload) : heap'.payload? id = some payload := by
  have old : id ≠ heap.instances.size := Nat.ne_of_lt (lt_size_of_payload? held)
  cases changes with
  | same => exact held
  | initList | initLinked | initRange | advance =>
    exact (payload?_setPayload_of_ne (Ne.symm ne) _).trans held
  | pushItem | setItem => exact held
  | iterateList | iterateLinked => rw [payload?_add, if_neg old, held]
  | pushBack held' | push held' => rw [payload?_setChain held', if_neg ne, held]

/-- What an operation leaves alone has the payload that it had. -/
theorem payload?_of_aside (aside : heap.Aside heap') {id : InstanceId} {payload : Payload}
    (held : heap.payload? id = some payload) : heap'.payload? id = some payload := by
  have old : id ≠ heap.instances.size := Nat.ne_of_lt (lt_size_of_payload? held)
  cases aside with
  | setField => rw [payload?_setField, held]
  | newInstance => rw [payload?_add, if_neg old, held]
  | newList items => exact (payload?_add ..).trans ((if_neg old).trans held)

namespace Spins

variable {ends : Nat → NodeId} {labels : Nat} {strand : InstanceId → Strand Value}

/-- Strands stay as they are, by the way. -/
theorem aside (h : heap.Spins ends labels strand) (aside : heap.Aside heap') :
    ∃ strand', heap'.Spins ends labels strand' ∧
      ∀ id payload, heap.payload? id = some payload → strand' id = strand id := by
  have old : ∀ {id payload}, heap.payload? id = some payload → id ≠ heap.instances.size :=
    fun held => Nat.ne_of_lt (lt_size_of_payload? held)
  cases aside with
  | setField id name value =>
    exact ⟨strand, h.of_same rfl fun _ => payload?_setField .., fun _ _ _ => rfl⟩
  | newInstance cls =>
    exact ⟨_, h.add cls rfl, fun _ _ held => Function.update_of_ne (old held) _ _⟩
  | newList items =>
    have stored : Spins (heap.addStorage items).2 ends labels strand := h.of_same rfl fun _ => rfl
    exact ⟨_, stored.add _ rfl, fun _ _ held => Function.update_of_ne (old held) _ _⟩

/-- An operation leaves the strands of other instances as they are, or it puts an element at the end
of a linked list that is not empty, and of the strands with its label. -/
theorem changes (h : heap.Spins ends labels strand) {operation : Operation}
    (changes : operation.Changes heap heap') :
    ∃ ends' labels' strand', heap'.Spins ends' labels' strand' ∧
      ∀ id payload, heap.payload? id = some payload → id ≠ operation.self →
        strand' id = strand id ∨
        ∃ chain value, heap.payload? operation.self = some (.linkedList chain) ∧
          (strand operation.self).items ≠ [] ∧
          strand' id = (strand id).extend (strand operation.self).label value := by
  have old : ∀ {id payload}, heap.payload? id = some payload → id ≠ heap.instances.size :=
    fun held => Nat.ne_of_lt (lt_size_of_payload? held)
  cases changes with
  | same => exact ⟨_, _, _, h, fun _ _ _ _ => .inl rfl⟩
  | initList self line =>
    have stored : Spins (heap.addStorage #[]).2 ends labels strand := h.of_same rfl fun _ => rfl
    exact ⟨_, _, _, stored.setPayload self rfl,
      fun _ _ _ ne => .inl (Function.update_of_ne ne _ _)⟩
  | pushItem held value => exact ⟨_, _, _, h.of_same rfl fun _ => rfl, fun _ _ _ _ => .inl rfl⟩
  | setItem held i place value =>
    exact ⟨_, _, _, h.of_same rfl fun _ => rfl, fun _ _ _ _ => .inl rfl⟩
  | iterateList held =>
    exact ⟨_, _, _, h.add _ rfl, fun _ _ held _ => .inl (Function.update_of_ne (old held) _ _)⟩
  | initLinked self line =>
    exact ⟨_, _, _, h.init self, fun _ _ _ ne => .inl (Function.update_of_ne ne _ _)⟩
  | @pushBack self chain held value line =>
    have shows := h.shows self chain (chain?_of_linkedList held)
    by_cases empty : (strand self).items = []
    · rw [pushBack_of_isEmpty (shows.isEmpty_iff.2 empty)]
      exact ⟨_, _, _, h.start held value, fun _ _ _ ne => .inl (Function.update_of_ne ne _ _)⟩
    · exact ⟨_, _, _, h.pushBack held empty value, fun _ _ _ ne =>
        .inr ⟨chain, value, held, empty, Function.update_of_ne ne _ _⟩⟩
  | @push self chain held value line =>
    have shows := h.shows self chain (chain?_of_linkedList held)
    by_cases empty : (strand self).items = []
    · rw [push_of_isEmpty (shows.isEmpty_iff.2 empty)]
      exact ⟨_, _, _, h.start held value, fun _ _ _ ne => .inl (Function.update_of_ne ne _ _)⟩
    · exact ⟨_, _, _, h.push held empty value,
        fun _ _ _ ne => .inl (Function.update_of_ne ne _ _)⟩
  | iterateLinked held =>
    exact ⟨_, _, _, h.iterate held _,
      fun _ _ held _ => .inl (Function.update_of_ne (old held) _ _)⟩
  | initRange self arguments first last step =>
    exact ⟨_, _, _, h.setPayload self rfl, fun _ _ _ ne => .inl (Function.update_of_ne ne _ _)⟩
  | @advance self iterator held line =>
    refine ⟨ends, labels, ?_⟩
    cases iterator with
    | linkedList chain =>
      exact ⟨_, h.advance (iterator?_eq_some.1 held),
        fun _ _ _ ne => .inl (Function.update_of_ne ne _ _)⟩
    | _ =>
      refine ⟨_, h.setPayload self ?_, fun _ _ _ ne => .inl (Function.update_of_ne ne _ _)⟩
      unfold Heap.advance
      split <;> rfl

end Spins

/-- No collections have anything in common. -/
structure Apart (heap : Heap) : Prop where
  stored : heap.Stored
  spins : ∃ ends labels strand, heap.Spins ends labels strand

/-- In an empty heap there is nothing to keep apart. -/
theorem apart_empty : empty.Apart := by
  have nothing : ∀ id, empty.payload? id = none := fun id => by simp [payload?, empty]
  refine ⟨⟨?_, ?_⟩, fun _ => 0, 0, fun _ => ⟨[], 0⟩, ?_⟩
  · intro id storage found
    simp [nothing] at found
  · intro id id' storage found
    simp [nothing] at found
  · constructor
    case shows =>
      intro id chain found
      simp [chain?, nothing] at found
    case known =>
      intro id chain found
      simp [chain?, nothing] at found
    case labelled =>
      exact ⟨fun _ h => absurd h (Nat.not_lt_zero _), fun _ h => absurd h (Nat.not_lt_zero _)⟩
    case own =>
      intro id id' chain chain' found
      simp [nothing] at found

namespace Apart

/-- **Every change of the heap keeps collections apart.** -/
theorem change (h : heap.Apart) (changed : heap.Change heap') : heap'.Apart := by
  refine ⟨h.stored.change changed, ?_⟩
  obtain ⟨ends, labels, strand, spins⟩ := h.spins
  have by_the_way : ∀ {heap'}, heap.Aside heap' →
      ∃ ends labels strand, heap'.Spins ends labels strand := by
    intro heap' aside
    obtain ⟨strand', spins', -⟩ := spins.aside aside
    exact ⟨ends, labels, strand', spins'⟩
  have operated : ∀ {operation : Operation} {heap'}, operation.Changes heap heap' →
      ∃ ends labels strand, heap'.Spins ends labels strand := by
    intro operation heap' changes
    obtain ⟨ends', labels', strand', spins', -⟩ := spins.changes changes
    exact ⟨ends', labels', strand', spins'⟩
  cases changed with
  | setField id name value => exact by_the_way (.setField id name value)
  | newInstance cls => exact by_the_way (.newInstance cls)
  | newList items => exact by_the_way (.newList items)
  | initList id => exact operated (.initList id 0)
  | initLinked id => exact operated (.initLinked id 0)
  | initRange id first last step => exact operated (.initRange id [] first last step 0)
  | pushItem held value => exact operated (.pushItem held value 0)
  | setItem held i value => exact operated (.setItem held i .nil value 0)
  | push held value => exact operated (.push held value 0)
  | pushBack held value => exact operated (.pushBack held value 0)
  | iterateList held => exact operated (.iterateList held 0)
  | iterateLinked held => exact operated (.iterateLinked held 0)
  | advance held => exact operated (.advance held 0)

end Apart

end Heap

/-- What an operation does is one change of the heap or none. -/
theorem Operation.Changes.change {heap heap' : Heap} {operation : Operation}
    (h : operation.Changes heap heap') : heap' = heap ∨ heap.Change heap' := by
  cases h with
  | same => exact .inl rfl
  | initList self line => exact .inr (.initList self)
  | pushItem held value => exact .inr (.pushItem held value)
  | setItem held i place value => exact .inr (.setItem held i value)
  | iterateList held => exact .inr (.iterateList held)
  | initLinked self line => exact .inr (.initLinked self)
  | pushBack held value => exact .inr (.pushBack held value)
  | push held value => exact .inr (.push held value)
  | iterateLinked held => exact .inr (.iterateLinked held)
  | initRange self arguments first last step => exact .inr (.initRange self first last step)
  | advance held => exact .inr (.advance held)

end Lox
