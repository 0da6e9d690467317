/-
# Who asks for input

The input of a state is a stream that is read from in two places, by the prompt and by calls of the
function `input`.  An `Asking` is one such reading, with the input that it finds there.
`Task.askings` lists those of a task in order.

Everything else that a task does leaves the input as it is, and does not wait for more of it
(`Eval.Deaf`).  So from the beginning of a task to its end, the input changes by its askings and
nothing else: each takes up what the one before it has left (`Input.Serves`), also where the task
ends without an answer.  That is `Task.asks`; a script asks what the tasks ask that it calls
(`Script.asks`).
-/
import Lox.Proofs.Eval.Operation
import Lox.Session

namespace Lox

/-! ## 1. Acts that do not ask

An act is deaf if the input is the same behind it. -/

namespace Eval

variable {α β : Type}

/-- An evaluation leaves the input as it is, and does not wait for more of it. -/
structure Deaf (x : Eval α) : Prop where
  input : ∀ s, (endState (x s)).input = s.input
  goesOn : ∀ s s', x s ≠ .error .starved s'

namespace Deaf

theorem pure (value : α) : Deaf (Pure.pure value) := ⟨fun _ => rfl, fun _ _ => nofun⟩

/-- What does not ask leaves the input alone, one act after the other. -/
theorem bind {x : Eval α} {f : α → Eval β} (hx : Deaf x) (hf : ∀ value, Deaf (f value)) :
    Deaf (x >>= f) := by
  constructor
  · intro s
    have first := hx.input s
    cases hs : x s with
    | error interrupt s' =>
      rw [hs] at first
      rwa [bind_of_error hs]
    | ok value s' =>
      rw [hs] at first
      rw [bind_of_ok hs]
      exact ((hf value).input s').trans first
  · intro s s' starved
    cases hs : x s with
    | error interrupt s'' =>
      rw [bind_of_error hs] at starved
      cases starved
      exact hx.goesOn s s' hs
    | ok value s'' =>
      rw [bind_of_ok hs] at starved
      exact (hf value).goesOn s'' s' starved

/-- Some acts change only other parts of the state, and give an answer. -/
theorem total {x : Eval α} (h : ∀ s, ∃ v s', x s = .ok v s' ∧ s'.input = s.input) : Deaf x := by
  constructor
  · intro s
    obtain ⟨v, s', done, same⟩ := h s
    rw [done]
    exact same
  · intro s s' starved
    obtain ⟨v, t, done, -⟩ := h s
    cases done.symm.trans starved

/-- Any interrupt but the one that waits for input. -/
theorem throw {interrupt : Interrupt} (other : interrupt ≠ .starved) :
    Deaf (MonadExcept.throw interrupt : Eval α) := by
  refine ⟨fun _ => rfl, fun s s' starved => ?_⟩
  cases starved
  exact other rfl

/-- An assignment has nothing to do with the input. -/
theorem writeVariable (target : Variable) (value : Value) :
    Deaf (Eval.writeVariable target value) := by
  constructor
  · intro s
    simp only [Eval.writeVariable]
    split <;> rfl
  · intro s s' starved
    simp only [Eval.writeVariable] at starved
    split at starved <;> cases starved

theorem printValue (value : Value) (line : Nat) : Deaf (Eval.printValue value line) := by
  constructor
  · intro s
    simp only [Eval.printValue]
    split <;> rfl
  · intro s s' starved
    simp only [Eval.printValue] at starved
    split at starved <;> cases starved

/-- Nor have the acts that change the heap. -/
theorem heapLaws : HeapLaws @Deaf where
  pure := pure
  bind := bind
  get := total fun _ => ⟨_, _, rfl, rfl⟩
  throw _ := throw
  newStorage _ := total fun _ => ⟨_, _, rfl, rfl⟩
  newInstance _ _ := total fun _ => ⟨_, _, rfl, rfl⟩
  modifyHeap _ := total fun _ => ⟨_, _, rfl, rfl⟩

/-- Nor those that open scopes. -/
theorem deafLaws : DeafLaws @Deaf where
  toPlain := heapLaws.toPlain
  newScope _ := total fun _ => ⟨_, _, rfl, rfl⟩
  defineIn _ _ _ := total fun _ => ⟨_, _, rfl, rfl⟩
  writeVariable := writeVariable
  freshStamp := total fun _ => ⟨_, _, rfl, rfl⟩
  printValue := printValue
  readClock := total fun _ => ⟨_, _, rfl, rfl⟩
  newInstance _ := heapLaws.newInstance _ _
  newList := heapLaws.newList

end Deaf

end Eval

/-- The acts of all tasks but the calls of `input` leave the input as it is. -/
theorem Task.deaf_script {task : Task} (other : task.asksLine = false) :
    task.script.Acts @Eval.Deaf := by
  have heap := Eval.Deaf.heapLaws
  cases found : task.operation? with
  | some operation => exact acts_operation heap.toPlain heap.callMethod heap.iteratorAdvance found
  | none =>
    refine acts_script_of_deaf Eval.Deaf.deafLaws found (fun _ _ _ _ => heap.modifyHeap _) ?_
    intro asks
    cases other.symm.trans asks

/-- To enter a frame leaves the input alone. -/
theorem Frame.input_enter {frame : Frame} {s inner : State} (entered : frame.enter s = .ok inner) :
    inner.input = s.input := by
  cases frame with
  | same | scope id =>
    cases entered
    rfl
  | call line =>
    simp only [enter] at entered
    split at entered <;> cases entered
    rfl

theorem Frame.input_leave (frame : Frame) (before finish : State) :
    (frame.leave before finish).input = finish.input := by
  cases frame <;> rfl

/-- A frame that refuses to be entered does not wait for input. -/
theorem Frame.enter_ne_starved (frame : Frame) (s : State) :
    frame.enter s ≠ .error .starved := by
  intro starved
  cases frame with
  | same | scope id => cases starved
  | call line =>
    simp only [enter] at starved
    split at starved <;> cases starved

/-! ## 2. Askings

An asking is found among the moments of a run, as the beginning of a call. -/

/-- A reading from the input. -/
inductive Asking where
  /-- The prompt reads the text that it runs next. -/
  | prompt (session : Session)
  /-- A call of `input` begins. -/
  | call (fuel line : Nat) (state : State)

namespace Asking

/-- The input that is read from. -/
def input : Asking → Input
  | prompt session => session.state.input
  | call _ _ s => s.input

/-- What is found. -/
def found (asking : Asking) : LineRead := asking.input.readLine.1

/-- What is left of the input. -/
def rest (asking : Asking) : Input := asking.input.readLine.2

end Asking

/-- The asking that begins at a moment, if there is fuel for it. -/
def Moment.asking? : Moment → Option Asking
  | begins (fuel + 1) (.apply (.builtin .input) [] line) s => some (.call fuel line s)
  | _ => none

/-- The askings of a task in order. -/
def Task.askings (fuel : Nat) (task : Task) (s : State) : List Asking :=
  (task.trace fuel s).filterMap Moment.asking?

/-- One input comes from another by some askings in order: each takes up what the one before it has
left. -/
inductive Input.Serves : Input → List Asking → Input → Prop where
  | done (input : Input) : Serves input [] input
  | asking {asking : Asking} {askings : List Asking} {last : Input}
      (rest : Serves asking.rest askings last) : Serves asking.input (asking :: askings) last

/-- What is served twice, one behind the other. -/
theorem Input.Serves.trans {input input' input'' : Input} {askings askings' : List Asking}
    (h : input.Serves askings input') (h' : input'.Serves askings' input'') :
    input.Serves (askings ++ askings') input'' := by
  induction h with
  | done input => exact h'
  | asking rest ih => exact .asking (ih h')

/-- An evaluation that ends so has taken its input by some askings, and has ended for want of input
only if one of them was in want of it. -/
structure Asks {α : Type} (input : Input) (askings : List Asking)
    (result : EStateM.Result Interrupt State α) : Prop where
  serves : input.Serves askings (endState result).input
  starves : ∀ s', result = .error .starved s' → ∃ asking ∈ askings, asking.found = .starved

namespace Asks

variable {α β : Type} {input : Input} {s s' : State} {askings askings' : List Asking}

/-- An act that does not ask has no askings. -/
theorem of_deaf {x : Eval α} (deaf : x.Deaf) (s : State) : Asks s.input [] (x s) := by
  refine ⟨?_, fun s' starved => absurd starved (deaf.goesOn s s')⟩
  rw [deaf.input s]
  exact .done s.input

/-- How an evaluation ends is how what goes on from it ends, if it gives no answer. -/
theorem error {interrupt : Interrupt}
    (h : Asks input askings (.error interrupt s : EStateM.Result Interrupt State α)) (frame : Frame)
    (before : State) :
    Asks input askings
      (.error interrupt (frame.leave before s) : EStateM.Result Interrupt State β) := by
  constructor
  · change input.Serves askings (frame.leave before s).input
    rw [Frame.input_leave]
    exact h.serves
  · intro s' starved
    cases starved
    exact h.starves s rfl

/-- The askings of a second evaluation come behind those of the first. -/
theorem andThen {value : α} {result : EStateM.Result Interrupt State β}
    (first : Asks input askings (.ok value s)) (same : s'.input = s.input)
    (second : Asks s'.input askings' result) : Asks input (askings ++ askings') result := by
  constructor
  · rw [same] at second
    exact first.serves.trans second.serves
  · intro t starved
    obtain ⟨asking, mem, found⟩ := second.starves t starved
    exact ⟨asking, List.mem_append_right _ mem, found⟩

end Asks

/-! ## 3. What scripts and tasks ask

By induction on the fuel, a task asks what its script asks. -/

section Run

variable {fuel : Nat}

/-- A script whose own acts leave the input as it is asks what the tasks ask that it calls. -/
theorem Script.asks
    (tasks : ∀ (task : Task) (s : State), Asks s.input (task.askings fuel s) (task.run fuel s))
    {α : Type} {script : Script α} (acts : script.Acts @Eval.Deaf) (s : State) :
    Asks s.input ((script.trace fuel (Task.trace fuel) s).filterMap Moment.asking?)
      (script.run (Task.run fuel) s) := by
  induction script generalizing s with
  | done value => exact .of_deaf (.pure value) s
  | act action next ih =>
    obtain ⟨own, later⟩ := acts
    have silent := Asks.of_deaf own s
    cases action with
    | plain action =>
      simp only [trace, run, Act.run] at silent ⊢
      cases hs : action s with
      | error interrupt s' =>
        rw [hs] at silent
        rw [Eval.bind_of_error hs]
        exact silent.error .same s
      | ok value s' =>
        rw [hs] at silent
        rw [Eval.bind_of_ok hs]
        exact silent.andThen rfl (ih value (later value) s')
    | opening origin enclosing =>
      let opened := s.scopes.add (some enclosing)
      exact ih opened.1 (later _) { s with scopes := opened.2 }
  | call frame task next ih =>
    simp only [trace, run]
    cases entered : frame.enter s with
    | error interrupt =>
      rw [Eval.bind_of_error (Frame.around_of_error entered _)]
      refine ⟨.done s.input, fun s' starved => ?_⟩
      cases starved
      exact absurd entered (frame.enter_ne_starved s)
    | ok inner =>
      have around := Frame.around_of_ok entered (task.run fuel)
      have inside := tasks task inner
      rw [Frame.input_enter entered] at inside
      dsimp only
      rw [List.filterMap_append]
      cases ran : task.run fuel inner with
      | error interrupt s' =>
        rw [ran] at inside around
        rw [Eval.bind_of_error around, List.filterMap_nil, List.append_nil]
        exact inside.error frame s
      | ok value s' =>
        rw [ran] at inside around
        rw [Eval.bind_of_ok around]
        exact inside.andThen (frame.input_leave s s') (ih value (acts value) _)

end Run

namespace Task

variable (fuel : Nat)

/-- A call of the function reads a line. -/
theorem run_input (line : Nat) :
    (apply (.builtin .input) [] line).run (fuel + 1) = Eval.inputLine line := by
  rw [run_succ]
  exact Script.run_doing _ _

/-- It asks once. -/
theorem askings_input (line : Nat) (s : State) :
    (apply (.builtin .input) [] line).askings (fuel + 1) s = [.call fuel line s] := by
  have single : (apply (.builtin .input) [] line).script =
      .doing (Eval.callFunction .input [] line) := rfl
  have begins : (Moment.begins (fuel + 1) (apply (.builtin .input) [] line) s).asking? =
      some (.call fuel line s) := rfl
  rw [askings, trace, List.filterMap_cons, begins, single, Script.doing]
  simp only [Script.trace]
  cases Eval.callFunction .input [] line s <;> rfl

/-- Only the calls of `input` ask by themselves. -/
theorem exists_of_asksLine {task : Task} (asks : task.asksLine = true) :
    ∃ line, task = apply (.builtin .input) [] line := by
  unfold asksLine at asks
  split at asks
  · exact ⟨_, rfl⟩
  · cases asks

/-- No other task asks itself. -/
theorem asking?_of_not_asksLine {task : Task} (other : task.asksLine = false) (s : State) :
    (Moment.begins (fuel + 1) task s).asking? = none := by
  unfold Moment.asking?
  split
  · rename_i same
    injection same with _ task_eq _
    subst task_eq
    cases other
  · rfl

end Task

/-- A call of `input` takes one line, and waits only if there is none yet. -/
theorem Eval.asks_inputLine (fuel line : Nat) (s : State) :
    Asks s.input [.call fuel line s] (Eval.inputLine line s) := by
  constructor
  · rw [endState_inputLine]
    let asking : Asking := .call fuel line s
    have taken : asking.input.Serves [asking] asking.rest := .asking (.done _)
    exact taken
  · intro s' starved
    refine ⟨_, List.mem_singleton_self _, ?_⟩
    have read : readLine s = .ok s.input.readLine.1 { s with input := s.input.readLine.2 } := rfl
    rw [inputLine, bind_of_ok read] at starved
    change s.input.readLine.1 = .starved
    cases found : s.input.readLine.1 with
    | starved => rfl
    | line text | invalid | ended => rw [found] at starved; cases starved

/-- **A task takes from the input what it asks for**, however it ends. -/
theorem Task.asks (fuel : Nat) (task : Task) (s : State) :
    Asks s.input (task.askings fuel s) (task.run fuel s) := by
  induction fuel generalizing task s with
  | zero =>
    rw [run_zero]
    have silent : Eval.Deaf (throw .outOfFuel : Eval task.Answer) := .throw nofun
    exact .of_deaf silent s
  | succ fuel ih =>
    cases asks : task.asksLine with
    | true =>
      obtain ⟨line, rfl⟩ := exists_of_asksLine asks
      rw [run_input, askings_input]
      exact Eval.asks_inputLine fuel line s
    | false =>
      rw [askings, trace, List.filterMap_cons, asking?_of_not_asksLine fuel asks, run_succ]
      exact Script.asks ih (deaf_script asks) s

end Lox
