/-
# The operations of a run

The methods of built-in classes are the only acts that look at what instances hold besides their
fields, or that change it.  `Task.operations` lists those that a task carries out, in order: what is
called by name, and what a loop does directly to its iterator.

Between two operations a run changes the heap only by the way (`Heap.Aside`): it gives fields values
and makes instances, without a look at the instances that are there.  So the heap at the end of a
task comes from the heap at its beginning by the operations of the task and nothing else
(`Task.undergoes`).
-/
import Lox.Proofs.Eval.Change
import Lox.Proofs.Eval.Conduct
import Lox.Proofs.Eval.Effect
import Lox.Proofs.Eval.Trace

namespace Lox

/-! ## 1. What happens by the way -/

/-- A change of the heap that leaves what instances hold as it is. -/
inductive Heap.Aside (heap : Heap) : Heap → Prop where
  | setField (id : InstanceId) (name : String) (value : Value) :
      Aside heap (heap.setField id name value)
  | newInstance (cls : Class) : Aside heap (heap.add cls none).2
  | newList (items : Array Value) :
      Aside heap ((heap.addStorage items).2.add (.builtin .list)
        (some (.list (heap.addStorage items).1))).2

theorem Heap.Aside.change {heap heap' : Heap} (h : heap.Aside heap') : heap.Change heap' := by
  cases h with
  | setField id name value => exact .setField id name value
  | newInstance cls => exact .newInstance cls
  | newList items => exact .newList items

namespace Eval

variable {α β : Type}

/-- An evaluation changes the heap only by the way. -/
def Aside (x : Eval α) : Prop :=
  ∀ s : State, Relation.ReflTransGen Heap.Aside s.heap (endState (x s)).heap

theorem Aside.bind {x : Eval α} {f : α → Eval β} (hx : Aside x) (hf : ∀ value, Aside (f value)) :
    Aside (x >>= f) := by
  intro s
  have first := hx s
  cases hs : x s with
  | error interrupt s' =>
    rw [hs] at first
    rwa [bind_of_error hs]
  | ok value s' =>
    rw [hs] at first
    rw [bind_of_ok hs]
    exact first.trans (hf value s')

theorem Aside.writeVariable (target : Variable) (value : Value) :
    Aside (Eval.writeVariable target value) := by
  intro s
  simp only [Eval.writeVariable]
  split <;> exact .refl

theorem Aside.printValue (value : Value) (line : Nat) : Aside (Eval.printValue value line) := by
  intro s
  simp only [Eval.printValue]
  split <;> exact .refl

theorem Aside.basicLaws : BasicLaws @Aside where
  pure _ := fun _ => .refl
  bind := Aside.bind
  get := fun _ => .refl
  throw _ _ := fun _ => .refl
  newScope _ := fun _ => .refl
  defineIn _ _ _ := fun _ => .refl
  writeVariable := Aside.writeVariable
  freshStamp := fun _ => .refl
  printValue := Aside.printValue
  inputLine line := fun s => by rw [endState_inputLine]
  readClock := fun _ => .refl
  setField id name value := fun _ => .single (.setField id name value)
  newInstance cls := fun _ => .single (.newInstance cls)
  newList items := fun _ => .single (.newList items.toArray)

/-- What is done with an answer, if it is only another answer, does not matter to the end. -/
theorem endState_map (x : Eval α) (f : α → β) (s : State) :
    endState ((x >>= fun value => pure (f value)) s) = endState (x s) := by
  cases hs : x s with
  | error interrupt s' => rw [bind_of_error hs]; rfl
  | ok value s' => rw [bind_of_ok hs]; rfl

end Eval

/-! ## 2. Heaps behind operations -/

/-- A heap comes from another one by some operations in order, each of which has a property where it
is carried out, and by what happens by the way. -/
inductive Heap.Undergoes (p : Operation → Heap → Prop) : Heap → List Operation → Heap → Prop where
  | done (heap : Heap) : Undergoes p heap [] heap
  | aside {heap heap' heap'' : Heap} {operations : List Operation} (aside : heap.Aside heap')
      (rest : Undergoes p heap' operations heap'') : Undergoes p heap operations heap''
  | operation {operation : Operation} {heap heap' : Heap} {operations : List Operation}
      (fits : p operation heap) (rest : Undergoes p (operation.effect heap).2 operations heap') :
      Undergoes p heap (operation :: operations) heap'

namespace Heap.Undergoes

variable {p : Operation → Heap → Prop} {heap heap' heap'' : Heap}
  {operations operations' : List Operation}

theorem trans (h : heap.Undergoes p operations heap')
    (h' : heap'.Undergoes p operations' heap'') :
    heap.Undergoes p (operations ++ operations') heap'' := by
  induction h with
  | done heap => exact h'
  | aside aside rest ih => exact .aside aside (ih h')
  | operation fits rest ih => exact .operation fits (ih h')

theorem of_asides (h : Relation.ReflTransGen Heap.Aside heap heap')
    (h' : heap'.Undergoes p operations heap'') : heap.Undergoes p operations heap'' := by
  induction h using Relation.ReflTransGen.head_induction_on with
  | refl => exact h'
  | head first rest ih => exact .aside first ih

end Heap.Undergoes

/-! ## 3. The operations of tasks -/

/-- The operation that begins at a moment, if there is fuel for it. -/
def Moment.operation? : Moment → Option Operation
  | begins (_ + 1) task _ => task.operation?
  | _ => none

/-- The operations of a task in order. -/
def Task.operations (fuel : Nat) (task : Task) (s : State) : List Operation :=
  (task.trace fuel s).filterMap Moment.operation?

section Run

variable {p : Operation → Heap → Prop} {fuel : Nat}

/-- Each operation at some moments has a property where it begins. -/
def Moment.Fit (p : Operation → Heap → Prop) (moments : List Moment) : Prop :=
  ∀ m ∈ moments, ∀ operation ∈ m.operation?, p operation m.state.heap

theorem Moment.fit_append {before after : List Moment} :
    Moment.Fit p (before ++ after) ↔ Moment.Fit p before ∧ Moment.Fit p after := by
  simp only [Fit, List.mem_append, or_imp, forall_and]

/-- A script whose acts leave the heap alone, or change it by the way, carries out the operations of
the tasks that it calls. -/
theorem Script.undergoes
    (tasks : ∀ task s, Moment.Fit p (Task.trace fuel task s) →
      s.heap.Undergoes p (task.operations fuel s) (endState (task.run fuel s)).heap)
    {α : Type} {script : Script α} (acts : script.Acts @Eval.Aside) {s : State}
    (fit : Moment.Fit p (script.trace fuel (Task.trace fuel) s)) :
    s.heap.Undergoes p ((script.trace fuel (Task.trace fuel) s).filterMap Moment.operation?)
      (endState (script.run (Task.run fuel) s)).heap := by
  induction script generalizing s with
  | done value => exact .done s.heap
  | act action next ih =>
    obtain ⟨own, later⟩ := acts
    have first := own s
    cases action with
    | plain action =>
      simp only [trace, run] at fit ⊢
      cases hs : action s with
      | error interrupt s' =>
        simp only [Act.run, hs, Eval.bind_of_error hs] at first ⊢
        exact .of_asides first (.done _)
      | ok value s' =>
        simp only [Act.run, hs, Eval.bind_of_ok hs] at first fit ⊢
        exact .of_asides first (ih value (later value) fit)
    | opening origin enclosing =>
      exact .of_asides first (ih _ (later _) fun m mem => fit m (List.mem_cons_of_mem _ mem))
  | call frame task next ih =>
    simp only [trace, run] at fit ⊢
    cases entered : frame.enter s with
    | error interrupt =>
      rw [Eval.bind_of_error (Frame.around_of_error entered _)]
      exact .done s.heap
    | ok inner =>
      have around := Frame.around_of_ok entered (task.run fuel)
      simp only [entered, Moment.fit_append, List.filterMap_append] at fit ⊢
      have inside := tasks task inner fit.1
      rw [Frame.heap_enter entered] at inside
      cases ran : task.run fuel inner with
      | error interrupt s' =>
        rw [ran] at inside around
        rw [Eval.bind_of_error around]
        simpa only [ran, List.filterMap_nil, List.append_nil, endState, Frame.leaveEnd,
          Frame.heap_leave, Task.operations] using inside
      | ok value s' =>
        rw [ran] at inside around
        rw [Eval.bind_of_ok around]
        simp only [ran] at fit ⊢
        have after := ih value (acts value) fit.2
        rw [Frame.heap_leave] at after
        exact inside.trans after

/-- An operation does to the heap what its method does. -/
theorem Task.heap_of_operation? (fuel : Nat) {task : Task} {operation : Operation}
    (h : task.operation? = some operation) (s : State) :
    (endState (task.run (fuel + 1) s)).heap = (operation.effect s.heap).2 ∧
      task.operations (fuel + 1) s = [operation] := by
  -- the script of such a task is a single act
  have one : ∀ {action : Eval task.Answer}, task.script = .doing action →
      (endState (action s)).heap = (endState (operation.run s)).heap →
      (endState (task.run (fuel + 1) s)).heap = (operation.effect s.heap).2 ∧
        task.operations (fuel + 1) s = [operation] := by
    intro action single same
    have begins : (Moment.begins (fuel + 1) task s).operation? = some operation := h
    constructor
    · rw [run_succ, single, Script.run_doing, same, Operation.heap_run]
    · rw [operations, trace, List.filterMap_cons, begins, single, Script.doing]
      simp only [Script.trace]
      cases action s <;> rfl
  obtain ⟨method, self, arguments, line⟩ := operation
  rcases cases_of_operation? h with rfl | ⟨rfl, rfl, rfl⟩ | ⟨rfl, rfl, rfl⟩ | ⟨rfl, rfl, rfl⟩
  · exact one rfl rfl
  · exact one rfl (congrArg State.heap (Eval.endState_map _ _ s).symm)
  · exact one rfl rfl
  · exact one rfl (congrArg State.heap (Eval.endState_map _ _ s).symm)

/-- **What a task does to the heap, its operations do**, and what happens by the way. -/
theorem Task.undergoes (fuel : Nat) (task : Task) (s : State)
    (fit : Moment.Fit p (task.trace fuel s)) :
    s.heap.Undergoes p (task.operations fuel s) (endState (task.run fuel s)).heap := by
  induction fuel generalizing task s with
  | zero =>
    rw [run_zero]
    exact .done s.heap
  | succ fuel ih =>
    cases found : task.operation? with
    | some operation =>
      obtain ⟨heap, operations⟩ := heap_of_operation? fuel found s
      rw [heap, operations]
      exact .operation (fit _ List.mem_cons_self _ found) (.done _)
    | none =>
      have own : (Moment.begins (fuel + 1) task s).operation? = none := found
      rw [operations, trace, List.filterMap_cons, own, run_succ]
      exact Script.undergoes ih (acts_script_of_basic Eval.Aside.basicLaws found)
        fun m mem => fit m (List.mem_cons_of_mem _ mem)

end Run

end Lox
