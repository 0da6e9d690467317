/-
# What evaluation does to the heap

A run changes the heap in a few ways only (`Heap.Change`): it makes instances, gives fields and
payloads, and changes the elements of a collection that some instance holds.  From any state to one
behind it leads a row of such changes, and stamps are used up in order (`Task.develops_run`).  So
what every single change keeps is kept by every run, and instances keep their classes
(`Heap.Develops.class?`).
-/
import Lox.Proofs.Eval.Forms

namespace Lox

/-! ## 1. Changes of the heap

The list is closed: whatever is not in it never happens to a heap. -/

/-- A single change of the heap.  A payload that leads to a storage or to nodes comes with them, or
from a payload that is there already. -/
inductive Heap.Change (heap : Heap) : Heap → Prop where
  | setField (id : InstanceId) (name : String) (value : Value) :
      Change heap (heap.setField id name value)
  | newInstance (cls : Class) : Change heap (heap.add cls none).2
  | newList (items : Array Value) :
      Change heap ((heap.addStorage items).2.add (.builtin .list)
        (some (.list (heap.addStorage items).1))).2
  | initList (id : InstanceId) :
      Change heap ((heap.addStorage #[]).2.setPayload id (.list (heap.addStorage #[]).1))
  | initLinked (id : InstanceId) : Change heap (heap.setPayload id (.linkedList .empty))
  | initRange (id : InstanceId) (first last step : Float) :
      Change heap (heap.setPayload id (.iterator (.range first last step)))
  | pushItem {id : InstanceId} {storage : StorageId}
      (held : heap.payload? id = some (.list storage)) (value : Value) :
      Change heap (heap.pushItem storage value)
  | setItem {id : InstanceId} {storage : StorageId}
      (held : heap.payload? id = some (.list storage)) (index : Nat) (value : Value) :
      Change heap (heap.setItem storage index value)
  | push {id : InstanceId} {chain : Chain} (held : heap.payload? id = some (.linkedList chain))
      (value : Value) :
      Change heap (Heap.setPayload { heap with nodes := (heap.nodes.push chain value).2 } id
        (.linkedList (heap.nodes.push chain value).1))
  | pushBack {id : InstanceId} {chain : Chain} (held : heap.payload? id = some (.linkedList chain))
      (value : Value) :
      Change heap (Heap.setPayload { heap with nodes := (heap.nodes.pushBack chain value).2 } id
        (.linkedList (heap.nodes.pushBack chain value).1))
  | iterateList {id : InstanceId} {storage : StorageId}
      (held : heap.payload? id = some (.list storage)) :
      Change heap (heap.add (.builtin .listIterator) (some (.iterator (.list storage 0)))).2
  | iterateLinked {id : InstanceId} {chain : Chain}
      (held : heap.payload? id = some (.linkedList chain)) :
      Change heap (heap.add (.builtin .linkedListIterator) (some (.iterator (.linkedList chain)))).2
  | advance {id : InstanceId} {iterator : Iterator} (held : heap.iterator? id = some iterator) :
      Change heap (heap.setPayload id (.iterator (heap.advance iterator)))

/-- A row of changes. -/
abbrev Heap.Develops : Heap → Heap → Prop := Relation.ReflTransGen Heap.Change

/-- Instances keep their classes. -/
theorem Heap.Change.class? {heap heap' : Heap} (h : heap.Change heap') {id : InstanceId}
    {cls : Class} (found : heap.class? id = some cls) : heap'.class? id = some cls := by
  cases h with
  | setField => rwa [class?_setField]
  | newInstance => exact class?_add_of_some found _ _
  | newList items =>
    exact class?_add_of_some (show (heap.addStorage items).2.class? id = some cls from found) _ _
  | pushItem | setItem => exact found
  | iterateList | iterateLinked => exact class?_add_of_some found _ _
  | _ =>
    rw [class?_setPayload]
    exact found

/-- Instances keep their classes, over any number of changes. -/
theorem Heap.Develops.class? {heap heap' : Heap} (h : heap.Develops heap') {id : InstanceId}
    {cls : Class} (found : heap.class? id = some cls) : heap'.class? id = some cls := by
  induction h with
  | refl => exact found
  | tail _ change ih => exact change.class? ih

/-! ## 2. Evaluations

By induction on a run, the heap goes through changes from that list. -/

/-- One state is behind another one: its heap has come from there, and no stamp is given back. -/
structure State.Develops (s s' : State) : Prop where
  heap : s.heap.Develops s'.heap
  stamp : s.stamp ≤ s'.stamp

namespace State.Develops

variable {s s' s'' : State}

theorem refl (s : State) : s.Develops s := ⟨.refl, Nat.le_refl _⟩

/-- What happens to the heap over two stretches. -/
theorem trans (h : s.Develops s') (h' : s'.Develops s'') : s.Develops s'' :=
  ⟨h.heap.trans h'.heap, Nat.le_trans h.stamp h'.stamp⟩

/-- Everything but the heap and the stamps may change. -/
theorem of_same (heap : s'.heap = s.heap) (stamp : s'.stamp = s.stamp) : s.Develops s' :=
  ⟨heap ▸ .refl, Nat.le_of_eq stamp.symm⟩

/-- A single change, with no stamp used up. -/
theorem of_change (change : s.heap.Change s'.heap) (stamp : s'.stamp = s.stamp) : s.Develops s' :=
  ⟨.single change, Nat.le_of_eq stamp.symm⟩

end State.Develops

namespace Eval

variable {α β : Type}

/-- An evaluation ends in a state behind the one in which it began, with an answer or without. -/
def Develops (x : Eval α) : Prop := ∀ s : State, s.Develops (endState (x s))

namespace Develops

theorem pure (value : α) : Develops (Pure.pure value) := fun s => .refl s

/-- What two acts do to the heap, one after the other. -/
theorem bind {x : Eval α} {f : α → Eval β} (hx : Develops x) (hf : ∀ value, Develops (f value)) :
    Develops (x >>= f) := by
  intro s
  have h := hx s
  cases hs : x s with
  | error interrupt s' =>
    rw [hs] at h
    rwa [Eval.bind_of_error hs]
  | ok value s' =>
    rw [hs] at h
    rw [Eval.bind_of_ok hs]
    exact h.trans (hf value s')

/-- To look at the state does nothing to the heap. -/
theorem plain : Plain @Develops := ⟨pure, bind, fun s => .refl s, fun _ _ s => .refl s⟩

/-- What is behind a look at the state may use what has been seen. -/
theorem seeing {x : Eval α} (looks : Looks x) {f : α → Eval β} {s : State}
    (h : ∀ value, x s = .ok value s → s.Develops (endState (f value s))) :
    s.Develops (endState ((x >>= f) s)) := by
  have same := looks s
  cases hs : x s with
  | error interrupt s' =>
    rw [hs] at same
    rw [Eval.bind_of_error hs]
    exact same ▸ .refl s
  | ok value s' =>
    rw [hs] at same
    obtain rfl : s' = s := same
    rw [Eval.bind_of_ok hs]
    exact h value hs

/-- An assignment does nothing to it. -/
theorem writeVariable (target : Variable) (value : Value) :
    Develops (Eval.writeVariable target value) := by
  intro s
  simp only [Eval.writeVariable]
  split <;> exact .of_same rfl rfl

theorem printValue (value : Value) (line : Nat) : Develops (Eval.printValue value line) := by
  intro s
  simp only [Eval.printValue]
  split <;> exact .of_same rfl rfl

theorem newList (items : List Value) : Develops (Eval.newList items) :=
  fun _ => .of_change (.newList items.toArray) rfl

theorem iteratorAdvance (self : InstanceId) (line : Nat) :
    Develops (Eval.iteratorAdvance self line) :=
  fun _ => seeing (Looks.plain.heldIterator self line) fun _ held =>
    .of_change (.advance (Heap.iterator?_eq_some.2 (heldIterator_eq_ok held))) rfl

/-- To change a chain is one change of the heap. -/
theorem modifyChain (self : InstanceId) (line : Nat)
    {change : Nodes Value → Chain → Chain × Nodes Value}
    (changes : ∀ (heap : Heap) chain, heap.payload? self = some (.linkedList chain) →
      heap.Change (Heap.setPayload { heap with nodes := (change heap.nodes chain).2 } self
        (.linkedList (change heap.nodes chain).1))) :
    Develops (Eval.modifyChain self line change) :=
  fun s => seeing (Looks.plain.linkedChain self line) fun chain held =>
    .of_change (changes s.heap chain (linkedChain_eq_ok held)) rfl

/-- What is done to a list is done to the storage that the receiver holds. -/
theorem list {self : InstanceId} {line : Nat} {f : StorageId → Eval α}
    (h : ∀ (s : State) storage, s.heap.payload? self = some (.list storage) →
      s.Develops (endState (f storage s))) : Develops (listStorage self line >>= f) :=
  fun s => seeing (Looks.plain.listStorage _ _) fun storage held =>
    h s storage (listStorage_eq_ok held)

/-- One case for each built-in method. -/
theorem callMethod (method : BuiltinMethod) (self : InstanceId) (arguments : List Value)
    (line : Nat) : Develops (Eval.callMethod method self arguments line) := by
  unfold Eval.callMethod
  split
  · exact fun _ => .of_change (.initList self) rfl
  · exact list fun _ _ held => .of_change (.pushItem held _) rfl
  · refine plain.bind (plain.listStorage _ _) fun _ => plain.bind (plain.index _ _ _) fun _ =>
      plain.bind plain.get fun _ => ?_
    split
    · exact plain.pure _
    · exact plain.failBuiltin _ _
  · exact list fun _ _ held => seeing (Looks.plain.index _ _ _) fun i _ =>
      .of_change (.setItem held i _) rfl
  · exact plain.bind (plain.listStorage _ _) fun _ => plain.bind plain.get fun _ => plain.pure _
  · exact list fun _ _ held => .of_change (.iterateList held) rfl
  · exact fun _ => .of_change (.initLinked self) rfl
  · exact plain.bind (modifyChain _ _ fun _ _ held => .pushBack held _) fun _ => plain.pure _
  · exact plain.bind (modifyChain _ _ fun _ _ held => .push held _) fun _ => plain.pure _
  · exact plain.bind (plain.linkedChain _ _) fun _ => plain.bind plain.get fun _ => plain.pure _
  · exact plain.bind (plain.linkedChain _ _) fun _ => plain.bind plain.get fun _ => plain.pure _
  · exact plain.bind (plain.linkedChain _ _) fun _ => plain.pure _
  · exact fun _ => seeing (Looks.plain.linkedChain _ _) fun _ held =>
      .of_change (.iterateLinked (linkedChain_eq_ok held)) rfl
  · exact plain.bind (plain.rangeBound _ _) fun _ => plain.bind (plain.rangeBound _ _) fun _ =>
      plain.bind (plain.rangeBound _ _) fun _ => Plain.ite (plain.failBuiltin _ _)
        fun _ => .of_change (.initRange self _ _ _) rfl
  · exact plain.pure _
  · exact plain.bind (plain.iteratorHasItems _ _) fun _ => plain.pure _
  · exact plain.iteratorCurrent _ _
  · exact plain.bind (iteratorAdvance _ _) fun _ => plain.pure _
  · exact plain.throw _ nofun

/-- So all acts do to the heap what is in the list of changes. -/
theorem laws : Laws @Develops where
  toPlain := plain
  newScope _ := fun _ => .of_same rfl rfl
  defineIn _ _ _ := fun _ => .of_same rfl rfl
  writeVariable := writeVariable
  freshStamp := fun _ => ⟨.refl, Nat.le_succ _⟩
  printValue := printValue
  inputLine := plain.inputLine (fun _ => .of_same rfl rfl) fun _ => .refl _
  readClock := fun _ => .of_same rfl rfl
  setField id name value := fun _ => .of_change (.setField id name value) rfl
  newInstance cls := fun _ => .of_change (.newInstance cls) rfl
  newList := newList
  callMethod := callMethod
  iteratorAdvance := iteratorAdvance

/-- Entering and leaving a frame changes the place only. -/
theorem around {x : Eval α} (hx : Develops x) (frame : Frame) : Develops (frame.around x) := by
  have entered : ∀ {s inner}, frame.enter s = .ok inner → s.Develops inner := by
    intro s inner h
    cases frame with
    | same | scope id =>
      cases h
      exact .of_same rfl rfl
    | call line =>
      simp only [Frame.enter] at h
      split at h <;> cases h
      exact .of_same rfl rfl
  have left : ∀ s s' : State, s'.Develops (frame.leave s s') := by
    intro s s'
    cases frame <;> exact .of_same rfl rfl
  intro s
  rw [Frame.around_eq]
  cases found : frame.enter s with
  | error interrupt => exact .refl s
  | ok inner =>
    have inside := hx inner
    dsimp only
    cases hs : x inner <;> rw [hs] at inside <;>
      exact ((entered found).trans inside).trans (left s _)

end Develops

end Eval

/-- **Whatever a task does to the heap is a row of changes**, with an answer or interrupted. -/
theorem Task.develops_run (fuel : Nat) (task : Task) : Eval.Develops (task.run fuel) :=
  acts_run Eval.Develops.laws Eval.Develops.around fuel task

end Lox
