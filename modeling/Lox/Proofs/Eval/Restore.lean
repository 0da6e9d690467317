/-
# Evaluation puts the current scope and the number of calls back

However an evaluation ends, the current scope and the number of calls in progress are afterwards
what they were before (`Eval.Keeps`).  The acts of the scripts change neither, the frames around
tasks put both back (`Frame.keeps_around`), and so every task leaves them alone (`Task.keeps_run`).
Between the texts of a session the scope is that of the globals, and no call is in progress
(`place_is_restored`).
-/
import Lox.Proofs.Eval.Act
import Lox.Proofs.Session.Course

namespace Lox

/-- The state in which an evaluation ends. -/
def endState {α : Type} : EStateM.Result Interrupt State α → State
  | .ok _ s => s
  | .error _ s => s

/-- What holds at both kinds of end holds in the state in which an evaluation ends. -/
theorem Ends.holds_endState {α : Type} {result : EStateM.Result Interrupt State α}
    {p : State → Prop} (h : Ends result (fun _ s => p s) fun _ s => p s) : p (endState result) := by
  cases result with
  | ok value s => exact h
  | error interrupt s => exact h

/-- Asking for a line takes it from the input, and does nothing else to the state. -/
theorem Eval.endState_inputLine (line : Nat) (s : State) :
    endState (inputLine line s) = { s with input := s.input.readLine.2 } := by
  have read : readLine s = .ok s.input.readLine.1 { s with input := s.input.readLine.2 } := rfl
  rw [inputLine, bind_of_ok read]
  cases s.input.readLine.1 <;> rfl

/-- A state that comes after another one and is in the same place: the current scope, the number of
calls in progress and the resolution are the same.  No scope is lost on the way. -/
structure State.SamePlace (s s' : State) : Prop where
  scope : s'.scope = s.scope
  depth : s'.depth = s.depth
  resolution : s'.resolution = s.resolution
  scopes : s.scopes.all.size ≤ s'.scopes.all.size

namespace State.SamePlace

theorem refl (s : State) : s.SamePlace s := ⟨rfl, rfl, rfl, Nat.le_refl _⟩

/-- The place is the same over both stretches, and the input has been read further. -/
theorem trans {s s' s'' : State} (h : s.SamePlace s') (h' : s'.SamePlace s'') :
    s.SamePlace s'' :=
  ⟨h'.scope.trans h.scope, h'.depth.trans h.depth, h'.resolution.trans h.resolution,
    Nat.le_trans h.scopes h'.scopes⟩

/-- Definitions make no scopes. -/
theorem define (s : State) (scope : ScopeId) (name : String) (value : Value) :
    s.SamePlace { s with scopes := s.scopes.define scope name value } :=
  ⟨rfl, rfl, rfl, Nat.le_of_eq (Scopes.size_define ..).symm⟩

end State.SamePlace

/-! ## 1. Evaluations that keep their place

An act never changes the current scope or the number of calls itself. -/

namespace Eval

variable {α β : Type}

/-- An evaluation ends where it began, with an answer or without. -/
def Keeps (x : Eval α) : Prop := ∀ s : State, s.SamePlace (endState (x s))

namespace Keeps

theorem pure (value : α) : Keeps (Pure.pure value) := fun s => .refl s

/-- If both acts keep their place, both together do. -/
theorem bind {x : Eval α} {f : α → Eval β} (hx : Keeps x) (hf : ∀ value, Keeps (f value)) :
    Keeps (x >>= f) := by
  intro s
  have h := hx s
  cases hs : x s with
  | error interrupt s' =>
    rw [hs] at h
    rwa [Eval.bind_of_error hs]
  | ok value s' =>
    rw [hs] at h
    rw [Eval.bind_of_ok hs]
    exact h.trans (hf value s')

theorem get : Keeps MonadState.get := fun s => .refl s

theorem throw (interrupt : Interrupt) : Keeps (MonadExcept.throw interrupt : Eval α) :=
  fun s => .refl s

/-- To look at the state keeps the place. -/
theorem plain : Plain @Keeps := ⟨pure, bind, get, fun interrupt _ => throw interrupt⟩

/-- So does a change of other parts of it. -/
theorem modifyGet {f : State → α × State} (h : ∀ s : State, s.SamePlace (f s).2) :
    Keeps (MonadStateOf.modifyGet f) :=
  fun s => h s

theorem newScope (enclosing : ScopeId) : Keeps (Eval.newScope enclosing) :=
  .modifyGet fun s => ⟨rfl, rfl, rfl, by simp only [Scopes.size_add]; omega⟩

theorem defineIn (scope : ScopeId) (name : String) (value : Value) :
    Keeps (Eval.defineIn scope name value) :=
  .modifyGet fun s => .define s scope name value

theorem freshStamp : Keeps Eval.freshStamp := .modifyGet fun _ => ⟨rfl, rfl, rfl, Nat.le_refl _⟩

/-- So do all acts that change scopes and heap. -/
theorem heapLaws : HeapLaws @Keeps where
  toPlain := plain
  newStorage _ := .modifyGet fun _ => ⟨rfl, rfl, rfl, Nat.le_refl _⟩
  newInstance _ _ := .modifyGet fun _ => ⟨rfl, rfl, rfl, Nat.le_refl _⟩
  modifyHeap _ := .modifyGet fun _ => ⟨rfl, rfl, rfl, Nat.le_refl _⟩

/-- An assignment changes what a scope binds, and not which scope is current. -/
theorem writeVariable (target : Variable) (value : Value) :
    Keeps (Eval.writeVariable target value) := by
  intro s
  simp only [Eval.writeVariable]
  split
  · exact .define _ _ _ _
  · exact .refl s

theorem printValue (value : Value) (line : Nat) : Keeps (Eval.printValue value line) := by
  intro s
  simp only [Eval.printValue]
  split <;> exact ⟨rfl, rfl, rfl, Nat.le_refl _⟩

/-- So do all acts, those on the console included. -/
theorem laws : Laws @Keeps where
  toPlain := plain
  newScope := .newScope
  defineIn := .defineIn
  writeVariable := .writeVariable
  freshStamp := .freshStamp
  printValue := .printValue
  inputLine := plain.inputLine (.modifyGet fun _ => ⟨rfl, rfl, rfl, Nat.le_refl _⟩) (throw _)
  readClock := .modifyGet fun _ => ⟨rfl, rfl, rfl, Nat.le_refl _⟩
  setField _ _ _ := heapLaws.modifyHeap _
  newInstance _ := heapLaws.newInstance _ _
  newList := heapLaws.newList
  callMethod := heapLaws.callMethod
  iteratorAdvance := heapLaws.iteratorAdvance

end Keeps

end Eval

/-! ## 2. Frames and scripts

The place is only changed around a call of a task, and put back behind it. -/

/-- A frame does not touch the heap when it is entered. -/
theorem Frame.heap_enter {frame : Frame} {s inner : State} (entered : frame.enter s = .ok inner) :
    inner.heap = s.heap := by
  cases frame with
  | same | scope id =>
    cases entered
    rfl
  | call line =>
    simp only [enter] at entered
    split at entered <;> cases entered
    rfl

/-- Nor when it is left. -/
theorem Frame.heap_leave (frame : Frame) (before finish : State) :
    (frame.leave before finish).heap = finish.heap := by
  cases frame <;> rfl

/-- A frame changes the place, and changes it back however the evaluation inside ends. -/
theorem Frame.keeps_around {α : Type} {x : Eval α} (hx : Eval.Keeps x) (frame : Frame) :
    Eval.Keeps (frame.around x) := by
  intro s
  rw [Frame.around_eq]
  cases frame with
  | same =>
    have h := hx s
    simp only [enter, leave]
    cases hs : x s <;> rwa [hs] at h
  | scope id =>
    have h := hx { s with scope := id }
    simp only [enter, leave]
    cases hs : x { s with scope := id } <;> rw [hs] at h <;>
      exact ⟨rfl, h.depth, h.resolution, h.scopes⟩
  | call line =>
    have h := hx { s with depth := s.depth + 1 }
    simp only [enter, leave]
    split
    · rename_i full
      split at full <;> cases full
      exact .refl s
    · rename_i room
      split at room <;> cases room
      cases hs : x { s with depth := s.depth + 1 } <;> rw [hs] at h <;>
        exact ⟨h.scope, by simp only [endState] at h ⊢; rw [h.depth]; rfl, h.resolution,
          h.scopes⟩

/-- Whether all acts of a script, whatever the answers before them, keep their place. -/
abbrev Script.Steady {α : Type} (script : Script α) : Prop := script.Acts @Eval.Keeps

namespace Task

/-- Every act of every script keeps its place. -/
theorem steady_script (task : Task) : task.script.Steady := acts_script Eval.Keeps.laws task

/-- **Every task ends where it began**, with an answer or interrupted, and with any fuel. -/
theorem keeps_run (fuel : Nat) (task : Task) : Eval.Keeps (task.run fuel) :=
  acts_run Eval.Keeps.laws Frame.keeps_around fuel task

end Task

/-! ## 3. Programs and sessions

By induction on the texts, a session is in the place in which it began. -/

/-- A whole program, too, ends where it began. -/
theorem Eval.keeps_run (fuel : Nat) (program : List Stmt) : Eval.Keeps (Eval.run fuel program) :=
  acts_run Keeps.laws Frame.keeps_around fuel program

/-- Whatever becomes of a program, the session goes on from the state in which it ended. -/
theorem Session.evaluate_snd (fuel : Nat) (session : Session) (program : List Stmt)
    (resolution : Resolution) :
    (session.evaluate fuel program resolution).2 =
      ⟨endState (Eval.run fuel program (session.ready resolution)), session.nextId⟩ := by
  unfold evaluate
  simp only [ready]
  cases Eval.run fuel program
      { session.state with resolution := session.state.resolution.absorb resolution } with
  | ok _ s' => rfl
  | error interrupt s' => cases interrupt <;> rfl

/-- Commands are carried out where the session is. -/
theorem Course.place_step (course : Course) (command : Command) :
    let after := (course.step command).session.state
    after.scope = course.session.state.scope ∧ after.depth = course.session.state.depth := by
  cases command with
  | run fuel source =>
    simp only [step]
    cases h : course.session.accepted? source with
    | none =>
      rw [Session.runWith_of_none fuel h]
      exact ⟨rfl, rfl⟩
    | some accepted =>
      rw [Session.runWith_of_some fuel h, Session.evaluate_snd]
      have same := Eval.keeps_run fuel accepted.1 (course.session.ready accepted.2)
      exact ⟨same.scope, same.depth⟩
  | _ => exact ⟨rfl, rfl⟩

/-- An evaluation puts the current scope and the number of calls back, however it ends. -/
def Eval.Restores {α : Type} (x : Eval α) : Prop :=
  ∀ s, (endState (x s)).scope = s.scope ∧ (endState (x s)).depth = s.depth

/-- What keeps its place restores it. -/
theorem Eval.Keeps.restores {α : Type} {x : Eval α} (h : x.Keeps) : x.Restores :=
  fun s => ⟨(h s).scope, (h s).depth⟩

/-- **The place is restored on every path.**  Expressions, statements, calls of values and of
properties, and bodies that are executed in a scope of their own put the current scope and the
number of calls back, from every state and however they end.  So between the commands of a session
the scope is that of the globals, and no call is in progress. -/
theorem place_is_restored :
    (∀ fuel e, (Eval.eval fuel e).Restores) ∧
    (∀ fuel s, (Eval.exec fuel s).Restores) ∧
    (∀ fuel callee arguments line, (Eval.call fuel callee arguments line).Restores) ∧
    (∀ fuel receiver name arguments line,
      (Eval.invoke fuel receiver name arguments line).Restores) ∧
    (∀ fuel scope body, (Eval.within scope (Eval.execAll fuel body)).Restores) ∧
    ∀ input room clock commands,
      let state := ((Course.new input room clock).follow commands).session.state
      state.scope = globalScope ∧ state.depth = 0 := by
  refine ⟨fun fuel e => (Task.keeps_run fuel (.eval e)).restores,
    fun fuel s => (Task.keeps_run fuel (.exec s)).restores,
    fun fuel callee arguments line => (Task.keeps_run fuel (.call callee arguments line)).restores,
    fun fuel receiver name arguments line =>
      (Task.keeps_run fuel (.invoke receiver name arguments line)).restores,
    fun fuel scope body =>
      (Frame.keeps_around (Task.keeps_run fuel (.execAll body)) (.scope scope)).restores, ?_⟩
  intro input room clock commands
  refine Course.follow_induction
    (p := fun course =>
      course.session.state.scope = globalScope ∧ course.session.state.depth = 0)
    (fun course command h => ?_) ⟨rfl, rfl⟩ commands
  have same := course.place_step command
  exact ⟨same.1.trans h.1, same.2.trans h.2⟩

end Lox
