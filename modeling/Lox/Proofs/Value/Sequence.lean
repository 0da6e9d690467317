/-
# A collection is a sequence

What the methods of a collection answer, and what they leave in it, can be told from its elements
alone: `Operation.onSequence` says it of a plain sequence, without storages and without nodes.  In a
heap whose collections are apart, an operation on a collection does to its elements what it does to
such a sequence (`Heap.Apart.refined`), and no other operation changes them
(`Heap.Apart.contents_of_ne`).
-/
import Lox.Proofs.Value.Collection
import Lox.Proofs.Value.Native

namespace Lox

/-! ## 1. Operations on sequences -/

/-- The place in a sequence that a value denotes, if it denotes one. -/
def placeAmong (size line : Nat) : Value → Except Interrupt Nat
  | .number x =>
    match (Decimal.Binary.ofFloat x).toNat? with
    | some i => if i < size then .ok i else .error (.error ⟨.builtin .indexOutOfRange, line⟩)
    | none => .error (.error ⟨.builtin .indexOutOfRange, line⟩)
  | value => .error (.error ⟨.builtin (.indexNotNumber value.type), line⟩)

/-- What an operation answers on a sequence, and the sequence behind it.  An iterator that is made
of it is a new instance, the next one; that is given. -/
def Operation.onSequence (operation : Operation) (next : InstanceId) (items : List Value) :
    Except Interrupt Value × List Value :=
  let ⟨method, self, arguments, line⟩ := operation
  match method, arguments with
  | .listInit, [] | .linkedInit, [] => (.ok (.inst self), [])
  | .listAppend, [value] | .linkedAppend, [value] => (.ok .nil, items ++ [value])
  | .linkedPrepend, [value] => (.ok .nil, value :: items)
  | .listAt, [place] =>
    ((placeAmong items.length line place).map fun i => items[i]?.getD .nil, items)
  | .listSet, [place, value] =>
    match placeAmong items.length line place with
    | .ok i => (.ok value, items.set i value)
    | .error interrupt => (.error interrupt, items)
  | .listSize, [] | .linkedSize, [] => (.ok (.number (Float.ofNat items.length)), items)
  | .linkedFirst, [] => (.ok (items.head?.getD .nil), items)
  | .linkedIsEmpty, [] => (.ok (.boolean items.isEmpty), items)
  | .listIterate, [] | .linkedIterate, [] => (.ok (.inst next), items)
  | _, _ => (.error .misuse, items)

/-- The sequence behind an operation does not depend on how many instances there are. -/
theorem Operation.onSequence_items (operation : Operation) (next next' : InstanceId)
    (items : List Value) :
    (operation.onSequence next items).2 = (operation.onSequence next' items).2 := by
  obtain ⟨method, self, arguments, line⟩ := operation
  unfold onSequence
  dsimp only
  split <;> rfl

/-- What operations one after the other leave of a sequence. -/
def Operation.sequenceAfter (operations : List Operation) (items : List Value) : List Value :=
  operations.foldl (fun items operation => (operation.onSequence 0 items).2) items

/-- An operation is by a method of what its instance holds, if it holds anything. -/
def Operation.Suits (operation : Operation) (heap : Heap) : Prop :=
  ∀ payload, heap.payload? operation.self = some payload → operation.method ∈ payload.kind.methods

namespace Shows

variable {α : Type} {nodes : Nodes α} {ends : Nat → NodeId} {chain : Chain} {strand : Strand α}

theorem isEmpty_eq (h : Shows nodes ends chain strand) : chain.isEmpty = strand.items.isEmpty := by
  rw [Bool.eq_iff_iff, h.isEmpty_iff, List.isEmpty_iff]

theorem length_eq (h : Shows nodes ends chain strand) :
    nodes.length chain = strand.items.length := by
  rw [← h.toList_eq, Nodes.toList, Nodes.length, List.length_map]

theorem first?_eq (h : Shows nodes ends chain strand) :
    nodes.first? chain = strand.items.head? := by
  obtain ⟨path, walk, items, -⟩ := h.walk
  rw [← items, Nodes.first?]
  generalize chain.head = link at walk
  cases walk with
  | done => rfl
  | visit found rest =>
    rw [Option.bind_some, found]
    rfl

end Shows

namespace Heap

open Nodes

variable {heap heap' : Heap} {operation : Operation}

theorem withIndex_eq (heap : Heap) (storage : StorageId) (line : Nat) (place : Value)
    (effect : Nat → Effect) :
    heap.withIndex storage line place effect =
      match placeAmong (heap.elements storage).length line place with
      | .ok i => effect i
      | .error interrupt => (.error interrupt, heap) := by
  unfold withIndex placeAmong
  cases place with
  | number x =>
    dsimp only
    cases (Decimal.Binary.ofFloat x).toNat? with
    | none => rfl
    | some i =>
      dsimp only
      rw [storageSize_eq]
      split <;> rfl
  | _ => rfl

theorem lt_of_placeAmong {size line i : Nat} {place : Value}
    (h : placeAmong size line place = .ok i) : i < size := by
  unfold placeAmong at h
  split at h
  · split at h
    · split at h <;> cases h
      assumption
    · cases h
  · cases h

/-! ## 2. Operations on a collection -/

/-- An instance holds a collection of a kind. -/
inductive Collects (heap : Heap) (id : InstanceId) : BuiltinClass → Prop where
  | list {storage : StorageId} (held : heap.payload? id = some (.list storage)) :
      Collects heap id .list
  | linkedList {chain : Chain} (held : heap.payload? id = some (.linkedList chain)) :
      Collects heap id .linkedList

theorem contents_of_list {id : InstanceId} {storage : StorageId}
    (held : heap.payload? id = some (.list storage)) :
    heap.contents id = heap.elements storage := by
  rw [contents, held]

/-- Making an instance leaves the collections as they are. -/
theorem contents_add {id : InstanceId} {payload : Payload} (held : heap.payload? id = some payload)
    (cls : Class) (other : Option Payload) :
    (heap.add cls other).2.contents id = heap.contents id := by
  have old : id ≠ heap.instances.size := Nat.ne_of_lt (lt_size_of_payload? held)
  unfold contents
  rw [payload?_add, if_neg old]
  rfl

/-- What an operation answers, and what it leaves in the collection that it is one on, is what it
does to a sequence. -/
def Refined (heap : Heap) (operation : Operation) : Prop :=
  (operation.effect heap).1 =
      (operation.onSequence heap.instances.size (heap.contents operation.self)).1 ∧
    (operation.effect heap).2.contents operation.self =
      (operation.onSequence heap.instances.size (heap.contents operation.self)).2

namespace Apart

variable {self : InstanceId} {method : BuiltinMethod} {arguments : List Value} {line : Nat}

/-- The methods of lists. -/
theorem refined_list (h : heap.Apart) {storage : StorageId}
    (held : heap.payload? self = some (.list storage))
    (mem : method ∈ BuiltinClass.list.methods) : heap.Refined ⟨method, self, arguments, line⟩ := by
  have known := h.stored.known self storage held
  have on_list : ∀ effect, heap.withStorage self line effect = effect storage := by
    intro effect
    rw [withStorage, held]
  have items := contents_of_list held
  unfold Refined
  cases method with
  | listInit =>
    cases arguments with
    | nil =>
      refine ⟨rfl, ?_⟩
      have still : (heap.addStorage #[]).2.payload? self = some (.list storage) := held
      have now := payload?_setPayload_held still (.list (heap.addStorage #[]).1)
      refine (contents_of_list now).trans ?_
      simp [elements, addStorage, setPayload, Operation.onSequence]
    | cons => exact ⟨rfl, rfl⟩
  | listAppend =>
    obtain _ | ⟨value, _ | _⟩ := arguments
    case cons.nil =>
      simp only [Operation.effect, Operation.onSequence, on_list]
      have now : (heap.pushItem storage value).payload? self = some (.list storage) := held
      refine ⟨trivial, ?_⟩
      rw [contents_of_list now, elements_pushItem known, if_pos rfl, items]
    all_goals exact ⟨rfl, rfl⟩
  | listAt =>
    obtain _ | ⟨place, _ | _⟩ := arguments
    case cons.nil =>
      simp only [Operation.effect, Operation.onSequence, on_list, withIndex_eq, items]
      cases found : placeAmong (heap.elements storage).length line place with
      | error interrupt => exact ⟨rfl, items⟩
      | ok i =>
        have there := List.getElem?_eq_getElem (lt_of_placeAmong found)
        simp only [item?_eq, there]
        exact ⟨by simp only [Except.map, there, Option.getD_some], items⟩
    all_goals exact ⟨rfl, rfl⟩
  | listSet =>
    obtain _ | ⟨place, _ | ⟨value, _ | _⟩⟩ := arguments
    case cons.cons.nil =>
      simp only [Operation.effect, Operation.onSequence, on_list, withIndex_eq, items]
      cases found : placeAmong (heap.elements storage).length line place with
      | error interrupt => exact ⟨rfl, items⟩
      | ok i =>
        have now : (heap.setItem storage i value).payload? self = some (.list storage) := held
        refine ⟨rfl, ?_⟩
        rw [contents_of_list now, elements_setItem, if_pos rfl]
    all_goals exact ⟨rfl, rfl⟩
  | listSize =>
    cases arguments with
    | nil =>
      simp only [Operation.effect, Operation.onSequence, on_list, storageSize_eq, items]
      exact ⟨trivial, trivial⟩
    | cons => exact ⟨rfl, rfl⟩
  | listIterate =>
    cases arguments with
    | nil =>
      simp only [Operation.effect, Operation.onSequence, on_list]
      exact ⟨trivial, contents_add held _ _⟩
    | cons => exact ⟨rfl, rfl⟩
  | _ => exact absurd mem (by decide)

/-- The methods of linked lists. -/
theorem refined_linkedList (h : heap.Apart) {chain : Chain}
    (held : heap.payload? self = some (.linkedList chain))
    (mem : method ∈ BuiltinClass.linkedList.methods) :
    heap.Refined ⟨method, self, arguments, line⟩ := by
  obtain ⟨ends, labels, strand, spins⟩ := h.spins
  have shows := spins.shows self chain (chain?_of_linkedList held)
  have items := spins.contents_eq held
  have on_chain : ∀ effect, heap.withChain self line effect = effect chain := by
    intro effect
    rw [withChain, held]
  unfold Refined
  cases method with
  | linkedInit =>
    cases arguments with
    | nil =>
      have now := payload?_setPayload_held held (.linkedList .empty)
      exact ⟨rfl, ((spins.init self).contents_eq now).trans (by rw [Function.update_self]; rfl)⟩
    | cons => exact ⟨rfl, rfl⟩
  | linkedAppend =>
    match arguments with
    | [value] =>
      simp only [Operation.effect, Operation.onSequence, on_chain, items]
      refine ⟨trivial, ?_⟩
      have now := (payload?_setChain held (heap.nodes.pushBack chain value) self).trans (if_pos rfl)
      by_cases empty : (strand self).items = []
      · rw [pushBack_of_isEmpty (shows.isEmpty_iff.2 empty)] at now ⊢
        rw [(spins.start held value).contents_eq now, Function.update_self, empty, List.nil_append]
      · rw [(spins.pushBack held empty value).contents_eq now, Function.update_self]
    | [] | _ :: _ :: _ => exact ⟨rfl, rfl⟩
  | linkedPrepend =>
    match arguments with
    | [value] =>
      simp only [Operation.effect, Operation.onSequence, on_chain, items]
      refine ⟨trivial, ?_⟩
      have now := (payload?_setChain held (heap.nodes.push chain value) self).trans (if_pos rfl)
      by_cases empty : (strand self).items = []
      · rw [push_of_isEmpty (shows.isEmpty_iff.2 empty)] at now ⊢
        rw [(spins.start held value).contents_eq now, Function.update_self, empty]
      · rw [(spins.push held empty value).contents_eq now, Function.update_self]
    | [] | _ :: _ :: _ => exact ⟨rfl, rfl⟩
  | linkedFirst =>
    cases arguments with
    | nil =>
      simp only [Operation.effect, Operation.onSequence, on_chain, items]
      exact ⟨by rw [shows.first?_eq], trivial⟩
    | cons => exact ⟨rfl, rfl⟩
  | linkedSize =>
    cases arguments with
    | nil =>
      simp only [Operation.effect, Operation.onSequence, on_chain, items]
      exact ⟨by rw [shows.length_eq], trivial⟩
    | cons => exact ⟨rfl, rfl⟩
  | linkedIsEmpty =>
    cases arguments with
    | nil =>
      simp only [Operation.effect, Operation.onSequence, on_chain, items]
      exact ⟨by rw [shows.isEmpty_eq], trivial⟩
    | cons => exact ⟨rfl, rfl⟩
  | linkedIterate =>
    cases arguments with
    | nil =>
      simp only [Operation.effect, Operation.onSequence, on_chain]
      exact ⟨trivial, contents_add held _ _⟩
    | cons => exact ⟨rfl, rfl⟩
  | _ => exact absurd mem (by decide)

/-- **An operation on a collection does to its elements what it does to a sequence.** -/
theorem refined (h : heap.Apart) {kind : BuiltinClass}
    (collects : heap.Collects operation.self kind)
    (mem : operation.method ∈ kind.methods) : heap.Refined operation := by
  obtain ⟨method, self, arguments, line⟩ := operation
  cases collects with
  | list held => exact h.refined_list held mem
  | linkedList held => exact h.refined_linkedList held mem

end Apart

/-! ## 3. Other operations -/

/-- A collection stays one of its kind as long as what it holds is there. -/
theorem Collects.of_payloads {id : InstanceId} {kind : BuiltinClass} (h : heap.Collects id kind)
    (kept : ∀ payload, heap.payload? id = some payload → heap'.payload? id = some payload) :
    heap'.Collects id kind := by
  cases h with
  | list held => exact .list (kept _ held)
  | linkedList held => exact .linkedList (kept _ held)

namespace Apart

variable {id : InstanceId} {kind : BuiltinClass}

/-- The elements in the storage of a list change only by operations on that list. -/
theorem elements_of_ne (h : heap.Apart) (changes : operation.Changes heap heap')
    (ne : id ≠ operation.self) {storage : StorageId}
    (held : heap.payload? id = some (.list storage)) :
    heap'.elements storage = heap.elements storage := by
  have known := h.stored.known id storage held
  have other : ∀ {storage'}, heap.payload? operation.self = some (.list storage') →
      storage' ≠ storage := by
    rintro storage' held' rfl
    exact ne (h.stored.own id operation.self storage' held held')
  cases changes with
  | initList => exact elements_addStorage known _
  | pushItem held' value =>
    rw [elements_pushItem (h.stored.known _ _ held'), if_neg (other held')]
  | setItem held' i place value => rw [elements_setItem, if_neg (other held')]
  | _ => rfl

/-- **An operation leaves the elements of other collections alone.** -/
theorem contents_of_ne (h : heap.Apart) (changes : operation.Changes heap heap')
    (collects : heap.Collects id kind) (ne : id ≠ operation.self) :
    heap'.contents id = heap.contents id := by
  cases collects with
  | list held =>
    have now := payload?_of_changes changes ne held
    rw [contents_of_list now, contents_of_list held, h.elements_of_ne changes ne held]
  | linkedList held =>
    have now := payload?_of_changes changes ne held
    obtain ⟨ends, labels, strand, spins⟩ := h.spins
    obtain ⟨ends', labels', strand', spins', kept⟩ := spins.changes changes
    rw [spins'.contents_eq now, spins.contents_eq held]
    rcases kept id _ held ne with same | ⟨chain, value, held', nonempty, extended⟩
    · rw [same]
    · -- the other linked list has another label, or this one is empty
      rw [extended, Strand.extend, if_neg]
      rintro ⟨items, label⟩
      exact ne (spins.own id _ _ _ held held' items nonempty label)

/-- And so does what happens by the way. -/
theorem contents_of_aside (h : heap.Apart) (aside : heap.Aside heap')
    (collects : heap.Collects id kind) : heap'.contents id = heap.contents id := by
  cases collects with
  | list held =>
    rw [contents_of_list (payload?_of_aside aside held), contents_of_list held]
    cases aside with
    | newList items => exact elements_addStorage (h.stored.known id _ held) items
    | _ => rfl
  | linkedList held =>
    obtain ⟨ends, labels, strand, spins⟩ := h.spins
    obtain ⟨strand', spins', kept⟩ := spins.aside aside
    rw [spins'.contents_eq (payload?_of_aside aside held), spins.contents_eq held, kept id _ held]

end Apart

/-! ## 4. Runs -/

theorem Apart.changes (h : heap.Apart) (changes : operation.Changes heap heap') : heap'.Apart := by
  rcases changes.change with rfl | changed
  · exact h
  · exact h.change changed

variable {id : InstanceId} {kind : BuiltinClass}

/-- An operation on a collection by a method of its class leaves a collection of that kind. -/
theorem Collects.effect (collects : heap.Collects id kind)
    (suits : operation.self = id → operation.method ∈ kind.methods) :
    (operation.effect heap).2.Collects id kind := by
  have changes := (operation.does_effect heap).changes
  by_cases on : operation.self = id
  · have mem := suits on
    generalize (operation.effect heap).2 = heap' at changes
    cases changes with
    | same => exact collects
    | initList self line =>
      cases collects with
      | list held =>
        cases on
        exact .list (payload?_setPayload_held
          (show Heap.payload? (heap.addStorage #[]).2 self = _ from held) _)
      | linkedList held => exact absurd mem (by simp [BuiltinClass.methods])
    | initLinked self line =>
      cases collects with
      | list held => exact absurd mem (by simp [BuiltinClass.methods])
      | linkedList held =>
        cases on
        exact .linkedList (payload?_setPayload_held held _)
    | pushItem | setItem => exact collects.of_payloads fun _ held => held
    | iterateList | iterateLinked =>
      refine collects.of_payloads fun payload held => ?_
      rw [payload?_add, if_neg (Nat.ne_of_lt (lt_size_of_payload? held)), held]
    | pushBack held' value | push held' value =>
      cases collects with
      | list held => exact absurd mem (by simp [BuiltinClass.methods])
      | linkedList held => exact .linkedList ((payload?_setChain held' _ id).trans (if_pos on.symm))
    | initRange | advance =>
      cases collects with
      | list held => exact absurd mem (by simp [BuiltinClass.methods])
      | linkedList held => exact absurd mem (by simp [BuiltinClass.methods])
  · exact collects.of_payloads fun payload held => payload?_of_changes changes (Ne.symm on) held

theorem Collects.mem_of_suits (collects : heap.Collects id kind) (suits : operation.Suits heap)
    (on : operation.self = id) : operation.method ∈ kind.methods := by
  cases collects with
  | list held => exact suits _ (on ▸ held)
  | linkedList held => exact suits _ (on ▸ held)

/-- **The elements of a collection behind a run** are those that the operations on it leave of a
plain sequence. -/
theorem Undergoes.contents {p : Operation → Heap → Prop} {operations : List Operation}
    (h : heap.Undergoes p operations heap')
    (suits : ∀ operation heap, p operation heap → heap.Collects id kind →
      operation.self = id → operation.method ∈ kind.methods)
    (apart : heap.Apart) (collects : heap.Collects id kind) :
    heap'.contents id =
        Operation.sequenceAfter (operations.filter (·.self = id)) (heap.contents id) ∧
      heap'.Apart ∧ heap'.Collects id kind := by
  induction h with
  | done heap => exact ⟨rfl, apart, collects⟩
  | aside aside rest ih =>
    obtain ⟨contents, later⟩ := ih (apart.change aside.change)
      (collects.of_payloads fun _ held => payload?_of_aside aside held)
    exact ⟨apart.contents_of_aside aside collects ▸ contents, later⟩
  | @operation operation heap heap' operations fits rest ih =>
    have mem := suits operation heap fits collects
    have changes := (operation.does_effect heap).changes
    obtain ⟨contents, later⟩ := ih (apart.changes changes) (collects.effect mem)
    refine ⟨?_, later⟩
    rw [contents, List.filter_cons]
    by_cases on : operation.self = id
    · subst on
      rw [if_pos (decide_eq_true rfl), (apart.refined collects (mem rfl)).2,
        operation.onSequence_items _ 0]
      rfl
    · rw [if_neg (mt of_decide_eq_true on), apart.contents_of_ne changes collects (Ne.symm on)]

end Heap

end Lox
