/-
# The history of fields

What happens in a run are moments, and fields being given values.  `Task.events` lists both in the
order in which they happen; a field has its value when the object and the value of the expression
have been evaluated, so behind all that happens in there.  The moments among the events are those of
`Task.trace` (`Task.moments_events`).

A heap that has passed some events has the fields of the heap before them, but for those that have
been given values, and of these the last one counts (`Heap.Passes.field?`).  The heaps of a run pass
its events (`Task.passes`).
-/
import Lox.Proofs.Eval.Operation
import Lox.Proofs.Value.Property

namespace Lox

/-! ## 1. Events

A list of what happens, in order, with the last value of each field. -/

/-- A field of an instance is given a value. -/
structure Write where
  id : InstanceId
  name : String
  value : Value

/-- What happens in a run. -/
inductive Event where
  | moment (m : Moment)
  | write (w : Write)

namespace Event

/-- The moment that comes. -/
def moment? : Event → Option Moment
  | moment m => some m
  | write _ => none

/-- The value that a field is given. -/
def value? (id : InstanceId) (name : String) : Event → Option Value
  | moment _ => none
  | write w => if w.id = id ∧ w.name = name then some w.value else none

/-- The value that a field has been given last. -/
def lastValue? (id : InstanceId) (name : String) (events : List Event) : Option Value :=
  events.reverse.findSome? (value? id name)

/-- What has been set last is what has been set later, or else earlier. -/
theorem lastValue?_append (id : InstanceId) (name : String) (before after : List Event) :
    lastValue? id name (before ++ after) =
      (lastValue? id name after).or (lastValue? id name before) := by
  rw [lastValue?, List.reverse_append, List.findSome?_append]
  rfl

theorem lastValue?_cons (id : InstanceId) (name : String) (event : Event) (after : List Event) :
    lastValue? id name (event :: after) =
      (lastValue? id name after).or (event.value? id name) := by
  rw [← List.singleton_append, lastValue?_append]
  congr 1
  simp [lastValue?]

end Event

/-- What the expression that begins at a moment gives a field, if it comes to that. -/
def Moment.write? : Moment → Option Write
  | begins (fuel + 1) (.eval (.set object property value)) s =>
    match Eval.eval fuel object s with
    | .ok (.inst id) s₁ =>
      match Eval.eval fuel value s₁ with
      | .ok value _ => some ⟨id, property.text, value⟩
      | _ => none
    | _ => none
  | _ => none

/-- The events of a script in order, given those of the tasks that it calls. -/
def Script.events (fuel : Nat) (tasks : Task → State → List Event) {α : Type} :
    Script α → State → List Event
  | .done _, _ => []
  | .act (.plain action) next, s =>
    match action s with
    | .ok v s' => (next v).events fuel tasks s'
    | .error _ _ => []
  | .act (.opening origin enclosing) next, s =>
    .moment (.opens origin s) ::
      match Eval.newScope enclosing s with
      | .ok v s' => (next v).events fuel tasks s'
      | .error _ _ => []
  | .call frame task next, s =>
    match frame.enter s with
    | .error _ => []
    | .ok inner =>
      tasks task inner ++
        match task.run fuel inner with
        | .ok v s' => (next v).events fuel tasks (frame.leave s s')
        | .error _ _ => []

/-- The events of a task in order. -/
def Task.events : (fuel : Nat) → Task → State → List Event
  | 0, task, s => [.moment (.begins 0 task s)]
  | fuel + 1, task, s =>
    .moment (.begins (fuel + 1) task s) ::
      (task.script.events fuel (Task.events fuel) s ++
        (Moment.write? (.begins (fuel + 1) task s)).toList.map .write)

/-- The events of a program in order. -/
def Event.ofProgram (fuel : Nat) : List Stmt → State → List Event
  | [], _ => []
  | first :: rest, s =>
    (Task.exec first).events fuel s ++
      match Eval.exec fuel first s with
      | .ok .normal s' => ofProgram fuel rest s'
      | _ => []

/-! ## 2. Moments among events

Events are moments, and fields being set.  If the latter are left out, moments are left. -/

section Moments

variable {fuel : Nat}

/-- The moments of a script are those among its events. -/
theorem Script.moments_events (tasks : Task → State → List Event) {α : Type} (script : Script α)
    (s : State) :
    (script.events fuel tasks s).filterMap Event.moment? =
      script.trace fuel (fun task s => (tasks task s).filterMap Event.moment?) s := by
  induction script generalizing s with
  | done value => rfl
  | act action next ih =>
    cases action with
    | plain action =>
      simp only [events, trace]
      cases action s with
      | ok v s' => exact ih v s'
      | error interrupt s' => rfl
    | opening origin enclosing =>
      simp only [events, trace, List.filterMap_cons, Event.moment?]
      exact congrArg _ (ih _ _)
  | call frame task next ih =>
    simp only [events, trace]
    cases frame.enter s with
    | error interrupt => rfl
    | ok inner =>
      simp only [List.filterMap_append]
      cases task.run fuel inner with
      | ok v s' => exact congrArg _ (ih v _)
      | error interrupt s' => rfl

/-- **The moments among the events of a task are its moments**, in order. -/
theorem Task.moments_events (task : Task) (s : State) :
    (task.events fuel s).filterMap Event.moment? = task.trace fuel s := by
  induction fuel generalizing task s with
  | zero => rfl
  | succ fuel ih =>
    have tasks : (fun task s => (Task.events fuel task s).filterMap Event.moment?) =
        Task.trace fuel := funext fun task => funext fun s => ih task s
    have own : ∀ w? : Option Write, (w?.toList.map Event.write).filterMap Event.moment? = [] := by
      intro w?
      cases w? <;> rfl
    rw [events, trace, List.filterMap_cons, List.filterMap_append, Script.moments_events, tasks,
      own, List.append_nil]
    rfl

/-- So it is for whole programs. -/
theorem Event.moments_ofProgram (program : List Stmt) (s : State) :
    (ofProgram fuel program s).filterMap moment? = Moment.trace fuel program s := by
  induction program generalizing s with
  | nil => rfl
  | cons first rest ih =>
    rw [ofProgram, Moment.trace, List.filterMap_append, Task.moments_events]
    cases Eval.exec fuel first s with
    | error interrupt s' => rfl
    | ok completion s' =>
      cases completion with
      | normal => exact congrArg _ (ih s')
      | returned value => rfl

theorem Event.mem_ofProgram {program : List Stmt} {s : State} {m : Moment} :
    .moment m ∈ ofProgram fuel program s ↔ Moment.During fuel program s m := by
  have listed : m ∈ Moment.trace fuel program s ↔ .moment m ∈ ofProgram fuel program s := by
    rw [← moments_ofProgram, List.mem_filterMap]
    constructor
    · rintro ⟨event, mem, same⟩
      cases event with
      | moment m' =>
        cases same
        exact mem
      | write w => cases same
    · exact fun mem => ⟨_, mem, rfl⟩
  rw [← listed]
  exact ⟨Moment.during_of_mem_trace, Moment.mem_trace_of_during⟩

end Moments

/-! ## 3. Heaps that pass events

The heap behind some events is known from the heap before them, as far as fields are concerned. -/

/-- A heap comes from another one while some events happen.  Fields are given values on instances
that are there; besides that, fields stay as they are. -/
inductive Heap.Passes : Heap → List Event → Heap → Prop where
  | done (heap : Heap) : Passes heap [] heap
  | aside {heap heap' heap'' : Heap} {events : List Event} (keeps : heap.KeepsFields heap')
      (rest : Passes heap' events heap'') : Passes heap events heap''
  | moment {heap heap' : Heap} {m : Moment} {events : List Event} (here : m.state.heap = heap)
      (rest : Passes heap events heap') : Passes heap (.moment m :: events) heap'
  | write {heap heap' : Heap} {w : Write} {events : List Event}
      (there : (heap.class? w.id).isSome)
      (rest : Passes (heap.setField w.id w.name w.value) events heap') :
      Passes heap (.write w :: events) heap'

namespace Heap.Passes

variable {heap heap' heap'' : Heap} {before after events : List Event}

/-- A heap that has passed two lists of events. -/
theorem trans (h : heap.Passes before heap') (h' : heap'.Passes after heap'') :
    heap.Passes (before ++ after) heap'' := by
  induction h with
  | done => exact h'
  | aside keeps rest ih => exact .aside keeps (ih h')
  | moment here rest ih => exact .moment here (ih h')
  | write there rest ih => exact .write there (ih h')

/-- **A field has the value that it has been given last**, or else the one that it had before. -/
theorem field? (h : heap.Passes events heap') (id : InstanceId) (name : String) :
    heap'.field? id name = (Event.lastValue? id name events).or (heap.field? id name) := by
  induction h with
  | done => rfl
  | aside keeps rest ih => rw [ih, keeps.field]
  | moment here rest ih => rw [ih, Event.lastValue?_cons, Event.value?, Option.or_none]
  | @write heap heap' w events there rest ih =>
    rw [ih, Event.lastValue?_cons, Event.value?, field?_setField_eq there, Option.or_assoc]
    split <;> rfl

/-- Instances keep their classes. -/
theorem class? (h : heap.Passes events heap') {id : InstanceId} {cls : Class}
    (found : heap.class? id = some cls) : heap'.class? id = some cls := by
  induction h with
  | done => exact found
  | aside keeps rest ih => exact ih (keeps.class id cls found)
  | moment here rest ih => exact ih found
  | write there rest ih => exact ih ((class?_setField ..).trans found)

/-- The events in front of a moment have been passed there. -/
theorem upTo {m : Moment} (h : heap.Passes (before ++ .moment m :: after) heap') :
    heap.Passes before m.state.heap := by
  generalize same : before ++ .moment m :: after = events at h
  induction h generalizing before with
  | done => cases before <;> cases same
  | aside keeps rest ih => exact .aside keeps (ih same)
  | moment here rest ih =>
    cases before with
    | nil =>
      cases same
      exact here ▸ .done _
    | cons event before =>
      cases same
      exact .moment here (ih rfl)
  | write there rest ih =>
    cases before with
    | nil => cases same
    | cons event before =>
      cases same
      exact .write there (ih rfl)

/-- What has not been given a value stands for what it did before. -/
theorem property? (h : heap.Passes events heap') {id : InstanceId} {cls : Class}
    (there : heap.class? id = some cls) {name : String}
    (unset : Event.lastValue? id name events = none) :
    heap'.property? id name = heap.property? id name := by
  rw [Heap.property?, Heap.property?, h.field?, unset, Option.none_or, h.class? there, there]

end Heap.Passes

/-! ## 4. Runs

The heap behind a run is the one that has passed the events of the run. -/

/-- An evaluation leaves fields as they are. -/
def Eval.KeepsFields {α : Type} (x : Eval α) : Prop :=
  ∀ s : State, s.heap.KeepsFields (endState (x s)).heap

namespace Eval.KeepsFields

variable {α β : Type}

/-- An act that leaves the heap alone sets no field. -/
theorem of_same {x : Eval α} (same : ∀ s, (endState (x s)).heap = s.heap) : KeepsFields x :=
  fun s => (same s).symm ▸ .refl s.heap

/-- Nor do two such acts. -/
theorem bind {x : Eval α} {f : α → Eval β} (hx : KeepsFields x)
    (hf : ∀ value, KeepsFields (f value)) : KeepsFields (x >>= f) := by
  intro s
  have first := hx s
  cases hs : x s with
  | error interrupt s' =>
    rw [hs] at first
    rwa [bind_of_error hs]
  | ok value s' =>
    rw [hs] at first
    rw [bind_of_ok hs]
    exact first.trans (hf value s')

/-- All acts keep the fields of instances, but the one that sets a field. -/
theorem stillLaws : StillLaws @KeepsFields where
  pure _ := of_same fun _ => rfl
  bind := bind
  get := of_same fun _ => rfl
  throw _ _ := of_same fun _ => rfl
  newScope _ := of_same fun _ => rfl
  defineIn _ _ _ := of_same fun _ => rfl
  writeVariable target value := of_same fun s => by
    simp only [Eval.writeVariable]
    split <;> rfl
  freshStamp := of_same fun _ => rfl
  printValue value line := of_same fun s => by
    simp only [Eval.printValue]
    split <;> rfl
  inputLine line := of_same fun s => by rw [endState_inputLine]
  readClock := of_same fun _ => rfl
  newInstance cls := fun s => .add s.heap cls none
  newList items := fun s =>
    .trans (.of_instances (rfl : (s.heap.addStorage items.toArray).2.instances = _)) (.add _ _ _)

end Eval.KeepsFields

/-- A field that is given a value is one of an instance that is there. -/
def Moment.Aims : Moment → Prop
  | begins (fuel + 1) (.eval (.set object _ _)) s =>
    ∀ id s', Eval.eval fuel object s = .ok (.inst id) s' → (s'.heap.class? id).isSome
  | _ => True

section Run

variable {fuel : Nat}

/-- A script whose acts leave fields as they are passes the events of the tasks that it calls. -/
theorem Script.passes
    (tasks : ∀ task s, (∀ m ∈ Task.trace fuel task s, m.Aims) →
      s.heap.Passes (task.events fuel s) (endState (task.run fuel s)).heap)
    {α : Type} {script : Script α} (acts : script.Acts @Eval.KeepsFields) {s : State}
    (aims : ∀ m ∈ script.trace fuel (Task.trace fuel) s, m.Aims) :
    s.heap.Passes (script.events fuel (Task.events fuel) s)
      (endState (script.run (Task.run fuel) s)).heap := by
  induction script generalizing s with
  | done value => exact .done s.heap
  | act action next ih =>
    obtain ⟨own, later⟩ := acts
    have first := own s
    cases action with
    | plain action =>
      simp only [trace, events, run] at aims ⊢
      cases hs : action s with
      | error interrupt s' =>
        simp only [Act.run, hs, Eval.bind_of_error hs] at first ⊢
        exact .aside first (.done _)
      | ok value s' =>
        simp only [Act.run, hs, Eval.bind_of_ok hs] at first aims ⊢
        exact .aside first (ih value (later value) aims)
    | opening origin enclosing =>
      refine .moment rfl (.aside first (ih _ (later _) fun m mem => aims m ?_))
      exact List.mem_cons_of_mem _ mem
  | call frame task next ih =>
    simp only [trace, events, run] at aims ⊢
    cases entered : frame.enter s with
    | error interrupt =>
      rw [Eval.bind_of_error (Frame.around_of_error entered _)]
      exact .done s.heap
    | ok inner =>
      have around := Frame.around_of_ok entered (task.run fuel)
      simp only [entered, List.mem_append] at aims ⊢
      have inside := tasks task inner fun m mem => aims m (.inl mem)
      rw [Frame.heap_enter entered] at inside
      cases ran : task.run fuel inner with
      | error interrupt s' =>
        rw [ran] at inside around
        rw [Eval.bind_of_error around]
        simpa only [ran, List.append_nil, endState, Frame.leaveEnd, Frame.heap_leave] using inside
      | ok value s' =>
        rw [ran] at inside around
        rw [Eval.bind_of_ok around]
        simp only [ran] at aims ⊢
        have after := ih value (acts value) fun m mem => aims m (.inr mem)
        rw [Frame.heap_leave] at after
        exact inside.trans after

/-- What happens when a task is called. -/
theorem Script.events_perform {α : Type} (fuel : Nat) (tasks : Task → State → List Event)
    (task : Task) (f : task.Answer → Script α) (s : State) :
    (perform task >>= f).events fuel tasks s =
      tasks task s ++ match task.run fuel s with
        | .ok v s' => (f v).events fuel tasks s'
        | .error _ _ => [] := by
  change (Script.call .same task f).events fuel tasks s = _
  simp only [events, Frame.enter, Frame.leave]

theorem Script.events_doing {α : Type} (tasks : Task → State → List Event) (action : Eval α)
    (s : State) : (doing action).events fuel tasks s = [] := by
  rw [doing]
  simp only [events]
  cases action s <;> rfl

/-- An operation is a single act. -/
theorem Task.events_of_operation? {task : Task} {operation : Operation}
    (found : task.operation? = some operation) (s : State) :
    task.events (fuel + 1) s = [.moment (.begins (fuel + 1) task s)] := by
  rw [events]
  obtain ⟨method, self, arguments, line⟩ := operation
  rcases cases_of_operation? found with rfl | ⟨rfl, -⟩ | ⟨rfl, -⟩ | ⟨rfl, -⟩
  all_goals
    rw [script, Script.events_doing]
    rfl

/-- Only an assignment to a property sets a field itself. -/
theorem Task.exists_of_setsField {task : Task} (sets : task.setsField = true) :
    ∃ object property value, task = .eval (.set object property value) := by
  unfold setsField at sets
  split at sets
  · exact ⟨_, _, _, rfl⟩
  · cases sets

/-- Other tasks give no field a value themselves. -/
theorem Task.write?_of_not_setsField {task : Task} (sets : task.setsField = false) (fuel : Nat)
    (s : State) : (Moment.begins fuel task s).write? = none := by
  unfold Moment.write?
  split
  · rename_i same
    cases same
    cases sets
  · rfl

/-- The events of an expression that gives a field a value. -/
theorem Task.events_set (object value : Expr) (property : Name) (s : State) :
    (Task.eval (.set object property value)).events (fuel + 1) s =
      .moment (.begins (fuel + 1) (.eval (.set object property value)) s) ::
        ((Task.eval object).events fuel s ++
          match Eval.eval fuel object s with
          | .ok (.inst id) s₁ => (Task.eval value).events fuel s₁ ++
            match Eval.eval fuel value s₁ with
            | .ok v _ => [.write ⟨id, property.text, v⟩]
            | .error _ _ => []
          | _ => []) := by
  rw [events, script, evalScript, Script.events_perform, Moment.write?]
  cases hobject : Eval.eval fuel object s with
  | error interrupt s₁ => simp [run, hobject]
  | ok receiver s₁ =>
    cases receiver with
    | inst id =>
      have inner := Script.events_perform fuel (Task.events fuel) (.eval value)
        (fun v => Script.act (.plain (Eval.modifyHeap (·.setField id property.text v))) fun _ =>
          .done v) s₁
      simp only [run, hobject]
      rw [List.append_assoc]
      refine congrArg _ (congrArg _ ((congrArg (· ++ _) inner).trans ?_))
      cases hvalue : Eval.eval fuel value s₁ with
      | error interrupt s₂ => simp [run, hvalue]
      | ok v s₂ =>
        simp only [run, hvalue, Script.events, List.append_assoc]
        rfl
    | _ => simp [run, hobject, Script.events_doing]

/-- Giving a field of an instance a value, once the instance is known. -/
theorem Eval.eval_set_of_inst {object value : Expr} {property : Name} {id : InstanceId}
    {s s₁ : State} (found : eval fuel object s = .ok (.inst id) s₁) :
    eval (fuel + 1) (.set object property value) s =
      (do
        let value ← eval fuel value
        modifyHeap (·.setField id property.text value)
        return value : Eval Value) s₁ := by
  simp only [eval, bind_of_ok found]

/-- A field is given its value when all else has happened. -/
theorem Task.passes_set
    (tasks : ∀ task s, (∀ m ∈ Task.trace fuel task s, m.Aims) →
      s.heap.Passes (task.events fuel s) (endState (task.run fuel s)).heap)
    {object value : Expr} {property : Name} {s : State}
    (aims : ∀ m ∈ (Task.eval (.set object property value)).trace (fuel + 1) s, m.Aims) :
    s.heap.Passes ((Task.eval (.set object property value)).events (fuel + 1) s)
      (endState ((Task.eval (.set object property value)).run (fuel + 1) s)).heap := by
  have aimed := aims _ List.mem_cons_self
  have first : Moment.Next (.begins (fuel + 1) (.eval (.set object property value)) s)
      (.begins fuel (.eval object) s) := .mk (.begins rfl)
  have found := tasks (.eval object) s fun m mem =>
    aims m (mem_trace.2 (.head first (mem_trace.1 mem)))
  rw [events_set]
  refine .moment rfl (.trans found ?_)
  change Heap.Passes _ _ (endState (Eval.eval (fuel + 1) (.set object property value) s)).heap
  change Heap.Passes _ _ (endState (Eval.eval fuel object s)).heap at found
  change Heap.Passes (endState (Eval.eval fuel object s)).heap _ _
  cases hobject : Eval.eval fuel object s with
  | error interrupt s₁ =>
    simp only [Eval.eval, Eval.bind_of_error hobject]
    exact .done _
  | ok receiver s₁ =>
    cases receiver with
    | inst id =>
      have second : Moment.Next (.begins (fuel + 1) (.eval (.set object property value)) s)
          (.begins fuel (.eval value) s₁) := .mk (.call hobject (.begins rfl))
      have given : s₁.heap.Passes _ (endState (Eval.eval fuel value s₁)).heap :=
        tasks (.eval value) s₁ fun m mem => aims m (mem_trace.2 (.head second (mem_trace.1 mem)))
      rw [Eval.eval_set_of_inst hobject]
      cases hvalue : Eval.eval fuel value s₁ with
      | error interrupt s₂ =>
        rw [hvalue] at given
        rw [Eval.bind_of_error hvalue]
        refine .trans given ?_
        simp only [hvalue]
        exact .done _
      | ok v s₂ =>
        rw [hvalue] at given
        rw [Eval.bind_of_ok hvalue]
        obtain ⟨cls, there⟩ := Option.isSome_iff_exists.1 (aimed id s₁ hobject)
        have still : (s₂.heap.class? id).isSome :=
          Option.isSome_iff_exists.2 ⟨cls, given.class? there⟩
        refine .trans given ?_
        simp only [hvalue]
        exact .write still (.done _)
    | _ =>
      simp only [Eval.eval, Eval.bind_of_ok hobject]
      exact .done _

/-- **The heaps of a task pass its events.** -/
theorem Task.passes (task : Task) (s : State) (aims : ∀ m ∈ task.trace fuel s, m.Aims) :
    s.heap.Passes (task.events fuel s) (endState (task.run fuel s)).heap := by
  induction fuel generalizing task s with
  | zero =>
    rw [run_zero]
    exact .moment rfl (.done s.heap)
  | succ fuel ih =>
    cases found : task.operation? with
    | some operation =>
      obtain ⟨heap, -⟩ := heap_of_operation? fuel found s
      have keeps := (operation.does_effect s.heap).changes.keepsFields
      rw [heap, events_of_operation? found]
      exact .moment rfl (.aside keeps (.done _))
    | none =>
      cases sets : task.setsField with
      | true =>
        obtain ⟨object, property, value, rfl⟩ := exists_of_setsField sets
        exact passes_set ih aims
      | false =>
        have inside : ∀ m ∈ task.script.trace fuel (Task.trace fuel) s, m.Aims :=
          fun m mem => aims m (List.mem_cons_of_mem _ mem)
        have acts : task.script.Acts @Eval.KeepsFields :=
          acts_script_of_still Eval.KeepsFields.stillLaws found fun sets' => by simp [sets] at sets'
        rw [events, write?_of_not_setsField sets, run_succ]
        simp only [Option.toList_none, List.map_nil, List.append_nil]
        exact .moment rfl (Script.passes ih acts inside)

/-- **The heaps of a program pass its events.** -/
theorem Event.passes_ofProgram (program : List Stmt) (s : State)
    (aims : ∀ m ∈ Moment.trace fuel program s, m.Aims) :
    s.heap.Passes (ofProgram fuel program s) (endState (Eval.run fuel program s)).heap := by
  induction program generalizing s with
  | nil => exact .done s.heap
  | cons first rest ih =>
    simp only [Moment.trace, List.mem_append] at aims
    have here : s.heap.Passes _ (endState (Eval.exec fuel first s)).heap :=
      (Task.exec first).passes s fun m mem => aims m (.inl mem)
    rw [ofProgram, Eval.run]
    cases ran : Eval.exec fuel first s with
    | error interrupt s' =>
      rw [ran] at here
      rw [Eval.bind_of_error ran]
      exact .trans here (.done _)
    | ok completion s' =>
      rw [ran] at here
      rw [Eval.bind_of_ok ran]
      simp only [ran] at aims
      cases completion with
      | normal => exact .trans here (ih s' fun m mem => aims m (.inr mem))
      | returned value => exact .trans here (.done _)

end Run

end Lox
