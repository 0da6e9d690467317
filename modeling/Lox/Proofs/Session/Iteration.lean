/-
# Loops over collections

A `foreach` loop over a list or a linked list visits what the collection held when the loop began,
and then all that has been put at its end meanwhile, be it by the body or by what the body calls:
everything once and in order, until nothing is left (`foreach_visits_what_is_appended`).  The
bodies may not set or prepend elements, nor empty the collection, nor step the iterator of the loop.

A loop is followed by its rounds (`Rounds`): the value that is visited in each, and the operations
that the body carries out.
-/
import Lox.Proofs.Session.Operations
import Lox.Proofs.Session.Stepping
import Lox.Proofs.Value.Along

namespace Lox

open Eval

/-! ## 1. Rounds -/

/-- A turn of a loop: the value that is visited, and the operations of the body. -/
structure Round where
  value : Value
  operations : List Operation

/-- The state in which the body of a loop begins. -/
def State.inTurn (s : State) (name : Name) (value : Value) : State :=
  { s with
    scopes := (s.scopes.add (some s.scope)).2.define s.scopes.all.size name.text value
    scope := s.scopes.all.size }

section Loop

variable (it : InstanceId) (line : Nat) (name : Name) (body : Stmt)

/-- A loop that steps an iterator has gone through some turns, with the fuel that was there and that
is left. -/
inductive Rounds : Nat → State → List Round → Nat → State → Prop where
  | start (fuel : Nat) (s : State) : Rounds fuel s [] fuel s
  | round {fuel left : Nat} {s t u : State} {value : Value} {rounds : List Round}
      (turn : Turn (.direct it) line name body fuel s value t)
      (rest : Rounds fuel t rounds left u) :
      Rounds (fuel + 1) s
        (⟨value, (Task.exec body).operations fuel (s.inTurn name value)⟩ :: rounds) left u

end Loop

section Turns

variable {it : InstanceId} {line fuel : Nat} {name : Name} {body : Stmt} {s t : State}
  {value : Value}

theorem Eval.cursorHasItems_direct (fuel : Nat) (it : InstanceId) (line : Nat) :
    cursorHasItems (fuel + 1) (.direct it) line = iteratorHasItems it line := by
  simp only [cursorHasItems]

theorem Eval.cursorCurrent_direct (fuel : Nat) (it : InstanceId) (line : Nat) :
    cursorCurrent (fuel + 1) (.direct it) line = iteratorCurrent it line := by
  simp only [cursorCurrent]

theorem Eval.cursorAdvance_direct (fuel : Nat) (it : InstanceId) (line : Nat) :
    cursorAdvance (fuel + 1) (.direct it) line = iteratorAdvance it line := by
  simp only [cursorAdvance]

/-- What a turn of a loop does that steps an iterator. -/
structure Eval.Turns (it : InstanceId) (line fuel : Nat) (name : Name) (body : Stmt) (s : State)
    (value : Value) (u t : State) : Prop where
  has : cursorHasItems fuel (.direct it) line s = .ok true s
  current : cursorCurrent fuel (.direct it) line
      { s with scopes := (s.scopes.add (some s.scope)).2 } =
    .ok value { s with scopes := (s.scopes.add (some s.scope)).2 }
  ran : exec fuel body (s.inTurn name value) = .ok .normal u
  advanced : cursorAdvance fuel (.direct it) line { u with scope := s.scope } = .ok () t

theorem Eval.Turn.turns (turn : Turn (.direct it) line name body fuel s value t) :
    ∃ u, Turns it line fuel name body s value u t := by
  obtain ⟨s₁, s₂, has, ran, advanced⟩ := turn
  obtain ⟨s₃, current, ended⟩ := turnBody_eq_ok ran
  cases fuel with
  | zero =>
    simp only [cursorHasItems] at has
    cases has
  | succ fuel =>
    -- asking for items and for the element leaves the state as it is
    obtain rfl : s₁ = s := iteratorHasItems_same (by rwa [← cursorHasItems_direct fuel])
    obtain rfl : s₃ = { s₁ with scopes := (s₁.scopes.add (some s₁.scope)).2 } := by
      rw [cursorCurrent_direct, iteratorCurrent_eq] at current
      split at current
      · split at current <;> cases current
        rfl
      · cases current
    unfold within at ended
    dsimp only at ended
    split at ended
    · rename_i u inside
      cases ended
      exact ⟨u, has, current, inside, advanced⟩
    · cases ended

/-- The loop with its turns begins as soon as the variable has its value. -/
theorem Eval.passes_of_current {m : Moment}
    (has : cursorHasItems fuel (.direct it) line s = .ok true s)
    (current : cursorCurrent fuel (.direct it) line
        { s with scopes := (s.scopes.add (some s.scope)).2 } =
      .ok value { s with scopes := (s.scopes.add (some s.scope)).2 })
    (later : Script.Passes fuel (Script.performIn s.scopes.all.size (.exec body)
        >>= fun completion => match completion with
          | .normal => do
            Script.perform (.cursorAdvance (.direct it) line)
            Script.perform (.forEach (.direct it) line name body)
          | .returned value => return .returned value)
        { s with scopes := (s.scopes.add (some s.scope)).2.define s.scopes.all.size name.text value }
        m) :
    (Task.forEachScript (.direct it) line name body).Passes fuel s m :=
  .call has (.act rfl (.act rfl (.call current (.act rfl later))))

/-- The body begins in the course of the loop, and so do the turns that are left. -/
theorem Eval.Turns.next {u : State} (h : Turns it line fuel name body s value u t) :
    Moment.Next (.begins (fuel + 1) (.forEach (.direct it) line name body) s)
        (.begins fuel (.exec body) (s.inTurn name value)) ∧
      Moment.Next (.begins (fuel + 1) (.forEach (.direct it) line name body) s)
        (.begins fuel (.forEach (.direct it) line name body) t) := by
  have around : (Frame.scope s.scopes.all.size).around (exec fuel body)
      { s with scopes := (s.scopes.add (some s.scope)).2.define s.scopes.all.size name.text value }
        = .ok .normal { u with scope := s.scope } := by
    have ran := h.ran
    unfold State.inTurn at ran
    simp only [Frame.around, within, ran]
  exact ⟨.mk (passes_of_current h.has h.current (.begins rfl)),
    .mk (passes_of_current h.has h.current (.call around (.call h.advanced (.begins rfl))))⟩

/-! ## 2. What rounds visit -/

variable {col : InstanceId} {kind : BuiltinClass} {passed : Nat}

/-- In a turn the next element is visited and passed, and what the body appends is put at the end of
the collection. -/
theorem Eval.Turns.along {u : State} (h : Turns it line fuel name body s value u t)
    (fit : Moment.Fit Operation.Suits ((Task.exec body).trace fuel (s.inTurn name value)))
    (lets : ∀ operation ∈ (Task.exec body).operations fuel (s.inTurn name value),
      operation.Lets it col)
    (apart : s.heap.Apart) (along : s.heap.Along it col passed kind) :
    (s.heap.contents col)[passed]? = some value ∧
      t.heap.contents col = s.heap.contents col ++ Operation.appendedTo col
        ((Task.exec body).operations fuel (s.inTurn name value)) ∧
      t.heap.Apart ∧ t.heap.Along it col (passed + 1) kind := by
  cases fuel with
  | zero =>
    have has := h.has
    simp only [cursorHasItems] at has
    cases has
  | succ fuel =>
    obtain ⟨iterator, found, items, current⟩ := along.stands
    have has := h.has
    have given := h.current
    have advanced := h.advanced
    simp only [cursorHasItems_direct, iteratorHasItems_eq, found] at has
    simp only [cursorCurrent_direct, iteratorCurrent_eq, found] at given
    have lt : passed < (s.heap.contents col).length := by
      rw [items] at has
      simpa using has
    have visited : (s.heap.contents col)[passed]? = some value := by
      rw [← current]
      split at given <;> cases given
      assumption
    -- the body lets the iterator go along
    have run := (Task.exec body).undergoes
      (p := fun operation heap => operation.Suits heap ∧ operation.Lets it col) (fuel + 1)
      (s.inTurn name value) fun m mem operation begins =>
        ⟨fit m mem operation begins, lets operation (List.mem_filterMap.2 ⟨m, mem, begins⟩)⟩
    rw [show endState ((Task.exec body).run (fuel + 1) (s.inTurn name value)) = u by
      rw [Task.run, h.ran]
      rfl] at run
    obtain ⟨contents, apart'⟩ := run.appended (fun _ _ fits => fits) apart along.collects
    have along' := along.undergoes (fun _ _ fits => fits) run apart lt
    obtain ⟨iterator', found', -⟩ := along'.stands
    simp only [cursorAdvance_direct, iteratorAdvance_eq, found'] at advanced
    cases advanced
    have step : Operation.Changes u.heap ⟨.move, it, [], line⟩
      (u.heap.setPayload it (.iterator (u.heap.advance iterator'))) := .advance found' line
    refine ⟨visited, ?_, apart'.changes step, along'.advance ?_ found'⟩
    · exact (apart'.contents_of_ne step along'.collects along.ne.symm).trans contents
    · rw [contents, List.length_append]
      exact Nat.lt_of_lt_of_le lt (Nat.le_add_right _ _)

/-- The moments of a later task are among those of an earlier one. -/
theorem Moment.Fit.of_next {p : Operation → Heap → Prop} {fuel fuel' : Nat} {task task' : Task}
    {s t : State} (fit : Moment.Fit p (task.trace fuel s))
    (next : Moment.Next (.begins fuel task s) (.begins fuel' task' t)) :
    Moment.Fit p (task'.trace fuel' t) :=
  fun m mem => fit m (Task.mem_trace.2 (.head next (Task.mem_trace.1 mem)))

/-- **What rounds visit.**  They visit the next elements of the collection as it is behind them, and
this is the collection as it was with all that the bodies have appended. -/
theorem Rounds.along {rounds : List Round} {left : Nat}
    (h : Rounds it line name body fuel s rounds left t)
    (fit : Moment.Fit Operation.Suits ((Task.forEach (.direct it) line name body).trace fuel s))
    (lets : ∀ round ∈ rounds, ∀ operation ∈ round.operations, operation.Lets it col)
    (apart : s.heap.Apart) (along : s.heap.Along it col passed kind) :
    t.heap.contents col = s.heap.contents col ++
        rounds.flatMap (Operation.appendedTo col ·.operations) ∧
      rounds.map Round.value = ((t.heap.contents col).drop passed).take rounds.length ∧
      t.heap.Along it col (passed + rounds.length) kind := by
  induction h generalizing passed with
  | start => exact ⟨by simp, by simp, along⟩
  | @round fuel left s t u value rounds turn rest ih =>
    obtain ⟨v, turns⟩ := turn.turns
    obtain ⟨visited, contents, apart', along'⟩ := turns.along (fit.of_next turns.next.1)
      (lets _ List.mem_cons_self) apart along
    obtain ⟨all, values, later⟩ := ih (fit.of_next turns.next.2)
      (fun round mem => lets round (List.mem_cons_of_mem _ mem)) apart' along'
    have first : (u.heap.contents col)[passed]? = some value := by
      rw [all, contents, List.append_assoc, List.getElem?_append_left, visited]
      exact (List.getElem?_eq_some_iff.1 visited).1
    refine ⟨?_, ?_, ?_⟩
    · rw [all, contents, List.flatMap_cons, List.append_assoc]
    · rw [List.drop_eq_getElem?_toList_append, first, List.map_cons, values]
      rfl
    · rw [List.length_cons, Nat.add_comm rounds.length, ← Nat.add_assoc]
      exact later

/-- A loop that has gone through some turns goes on from there. -/
theorem Rounds.forEach_eq {rounds : List Round} {left : Nat}
    (h : Rounds it line name body fuel s rounds left t) :
    forEach fuel (.direct it) line name body s = forEach left (.direct it) line name body t := by
  induction h with
  | start => rfl
  | round turn rest ih =>
    obtain ⟨s₁, s₂, has, ran, advanced⟩ := turn
    rw [forEach_succ, bind_of_ok has, if_pos rfl, bind_of_ok ran]
    exact (bind_of_ok advanced _).trans ih

/-- A loop that ends by itself has gone through turns until there was nothing left. -/
theorem Rounds.of_forEach (h : forEach fuel (.direct it) line name body s = .ok .normal t) :
    ∃ rounds left, Rounds it line name body fuel s rounds left t ∧
      iteratorHasItems it line t = .ok false t := by
  induction fuel generalizing s with
  | zero =>
    simp only [forEach] at h
    cases h
  | succ fuel ih =>
    rw [forEach_succ] at h
    obtain ⟨has, s₁, asked, h⟩ := bind_eq_ok h
    cases has with
    | false =>
      cases h
      cases fuel with
      | zero =>
        simp only [cursorHasItems] at asked
        cases asked
      | succ fuel =>
        rw [cursorHasItems_direct] at asked
        obtain rfl := iteratorHasItems_same asked
        exact ⟨[], _, .start _ _, asked⟩
    | true =>
      rw [if_pos rfl] at h
      obtain ⟨⟨value, completion⟩, s₂, ran, h⟩ := bind_eq_ok h
      cases completion with
      | returned value => cases h
      | normal =>
        obtain ⟨_, s₃, advanced, h⟩ := bind_eq_ok h
        obtain ⟨rounds, left, rest, exhausted⟩ := ih h
        exact ⟨_, left, .round ⟨s₁, s₂, asked, ran, advanced⟩ rest, exhausted⟩

end Turns

/-! ## 3. Loops over collections -/

/-- A built-in method that is found under a name is what a call by that name carries out. -/
theorem Eval.run_of_invoke {id : InstanceId} {name : String} {method : BuiltinMethod} {s t : State}
    {line fuel : Nat} {value : Value}
    (found : getProperty id name line s = .ok (.callable (.bound ⟨id, .builtin method⟩)) s)
    (h : invoke fuel (.inst id) name [] line s = .ok value t) :
    (Operation.effect ⟨method, id, [], line⟩ s.heap).1 = .ok value ∧
      (Operation.effect ⟨method, id, [], line⟩ s.heap).2 = t.heap := by
  obtain ⟨fuel, rfl, called⟩ : ∃ rest, fuel = rest + 1 ∧
      call rest (.callable (.bound ⟨id, .builtin method⟩)) [] line s = .ok value t := by
    cases fuel with
    | zero =>
      simp only [invoke] at h
      cases h
    | succ rest =>
      simp only [invoke, bind_of_ok found] at h
      exact ⟨rest, rfl, h⟩
  obtain ⟨rest, u, ran, ended⟩ : ∃ rest u,
      apply rest (.bound ⟨id, .builtin method⟩) [] line { s with depth := s.depth + 1 } =
          .ok value u ∧
        t.heap = u.heap := by
    cases fuel with
    | zero =>
      simp only [call] at called
      cases called
    | succ rest =>
      simp only [call] at called
      split at called
      · unfold nested at called
        split at called
        · cases called
        · split at called
          · rename_i inside
            cases called
            exact ⟨rest, _, inside, rfl⟩
          · cases called
      · cases called
  have carried : (Operation.mk method id [] line).run { s with depth := s.depth + 1 } =
      .ok value u := by
    obtain _ | _ | rest := rest
    case succ.succ => simpa only [apply, applyMethod, Operation.run] using ran
    all_goals
      simp only [apply, applyMethod] at ran
      cases ran
  rw [Operation.run_eq] at carried
  revert carried
  change State.ending _ (Operation.effect _ s.heap) = _ → _
  generalize Operation.effect _ s.heap = effect
  obtain ⟨answer, heap⟩ := effect
  intro carried
  cases answer with
  | error interrupt => cases carried
  | ok value' =>
    cases carried
    exact ⟨rfl, ended.symm⟩

/-- A `foreach` loop up to its first turn: the collection that the iterable gives, and the iterator
that the collection gives. -/
structure Loop where
  line : Nat
  name : Name
  iterable : Expr
  body : Stmt
  fuel : Nat
  /-- The state in which the statement begins. -/
  start : State
  collection : InstanceId
  kind : BuiltinClass
  /-- The state in which the collection is asked for an iterator. -/
  found : State
  iterator : InstanceId
  /-- The state before the first turn. -/
  first : State

namespace Loop

/-- The statement of a loop. -/
def statement (loop : Loop) : Stmt := .forEach loop.line loop.name loop.iterable loop.body

/-- The turns of a loop, with a given fuel, from a given state on. -/
def turns (loop : Loop) (fuel : Nat) : Eval Completion :=
  forEach fuel (.direct loop.iterator) loop.line loop.name loop.body

/-- What the collection of a loop holds before the loop. -/
def initial (loop : Loop) : List Value := loop.found.heap.contents loop.collection

/-- What has been put at the end of the collection in some rounds. -/
def appended (loop : Loop) (rounds : List Round) : List Value :=
  rounds.flatMap (Operation.appendedTo loop.collection ·.operations)

/-- The loop has gone through some rounds. -/
abbrev Rounds (loop : Loop) : List Round → (left : Nat) → State → Prop :=
  Lox.Rounds loop.iterator loop.line loop.name loop.body loop.fuel loop.first

/-- The bodies of some rounds only append to the collection, and do not step the iterator. -/
def Lets (loop : Loop) (rounds : List Round) : Prop :=
  ∀ round ∈ rounds, ∀ operation ∈ round.operations,
    operation.Lets loop.iterator loop.collection

/-- A loop over a list or a linked list that comes up in a session, if its iterator is made by the
built-in method. -/
structure ComesUp (loop : Loop) (past : Past) : Prop where
  begins : past.moments (.begins (loop.fuel + 1) (.exec loop.statement) loop.start)
  evaluated : eval loop.fuel loop.iterable loop.start = .ok (.inst loop.collection) loop.found
  collects : loop.found.heap.Collects loop.collection loop.kind
  builtin : getProperty loop.collection "iterate" loop.line loop.found =
    .ok (.callable (.bound ⟨loop.collection, .builtin loop.kind.iterate⟩)) loop.found
  iterated : invoke loop.fuel (.inst loop.collection) "iterate" [] loop.line loop.found =
    .ok (.inst loop.iterator) loop.first

section Session

variable {loop : Loop} {input : Input} {room : Option Nat} {clock : Nat} {commands : List Command}

/-- What is so before the first turn: the iterator has passed nothing, and the collection is as it
was. -/
structure Ready (loop : Loop) : Prop where
  exec_eq : exec (loop.fuel + 1) loop.statement loop.start = loop.turns loop.fuel loop.first
  fit : Moment.Fit Operation.Suits
    ((Task.forEach (.direct loop.iterator) loop.line loop.name loop.body).trace loop.fuel loop.first)
  apart : loop.first.heap.Apart
  along : loop.first.heap.Along loop.iterator loop.collection 0 loop.kind
  contents : loop.first.heap.contents loop.collection = loop.initial

theorem ComesUp.ready (h : loop.ComesUp (Past.after input room clock commands)) : loop.Ready := by
  have closed := (Course.scoped input room clock commands).closed
  have evaluates : Moment.Next (.begins (loop.fuel + 1) (.exec loop.statement) loop.start)
      (.begins loop.fuel (.eval loop.iterable) loop.start) := .mk (.begins rfl)
  have apart : loop.found.heap.Apart := by
    have reached := Course.Reached.ends (closed _ _ h.begins evaluates)
    rw [show endState ((Task.eval loop.iterable).run loop.fuel loop.start) = loop.found by
      rw [Task.run, h.evaluated]
      rfl] at reached
    exact Course.apart reached
  obtain ⟨answer, behind⟩ := run_of_invoke h.builtin h.iterated
  obtain ⟨given, along, made, contents⟩ := Heap.Along.start apart h.collects loop.line
  have same : loop.found.heap.instances.size = loop.iterator :=
    Value.inst.inj (Except.ok.inj (given.symm.trans answer))
  have changes := (Operation.does_effect ⟨loop.kind.iterate, loop.collection, [], loop.line⟩
    loop.found.heap).changes
  rw [behind] at along made contents changes
  rw [same] at along made
  have stepped : cursorFor (.inst loop.iterator) loop.first =
      .ok (.direct loop.iterator) loop.first := by
    obtain ⟨iterator, held, -⟩ := along.stands
    rw [cursorFor, look_bind]
    simp only [made, held, Option.isSome_some, Bool.and_self, if_true]
    rfl
  have turns : Moment.Next (.begins (loop.fuel + 1) (.exec loop.statement) loop.start)
      (.begins loop.fuel (.forEach (.direct loop.iterator) loop.line loop.name loop.body)
        loop.first) :=
    .mk (.call h.evaluated (.call h.iterated (.act stepped (.begins rfl))))
  constructor
  case exec_eq =>
    simp only [statement, exec, bind_of_ok h.evaluated, bind_of_ok h.iterated, bind_of_ok stepped,
      Loop.turns]
  case fit => exact (Course.suits h.begins).of_next turns
  case apart => exact apart.changes changes
  case along => exact along
  case contents => exact contents

end Session

variable {loop : Loop} {rounds : List Round} {left : Nat} {t : State}

/-- What some rounds have visited, and where the iterator stands behind them. -/
theorem Ready.visited (h : loop.Ready) (went : loop.Rounds rounds left t)
    (lets : loop.Lets rounds) :
    t.heap.contents loop.collection = loop.initial ++ loop.appended rounds ∧
      rounds.map Round.value = (loop.initial ++ loop.appended rounds).take rounds.length ∧
      t.heap.Along loop.iterator loop.collection rounds.length loop.kind := by
  obtain ⟨contents, values, along⟩ := Rounds.along went h.fit lets h.apart h.along
  rw [h.contents] at contents
  refine ⟨contents, ?_, Nat.zero_add rounds.length ▸ along⟩
  rw [values, contents, List.drop_zero]
  rfl

/-- How the loop goes on behind some rounds. -/
theorem Ready.goes_on (h : loop.Ready) (went : loop.Rounds rounds (left + 2) t)
    (lets : loop.Lets rounds) :
    (∀ value, (loop.initial ++ loop.appended rounds)[rounds.length]? = some value →
      Moment.Next
        (.begins (left + 2) (.forEach (.direct loop.iterator) loop.line loop.name loop.body) t)
        (.begins (left + 1) (.exec loop.body) (t.inTurn loop.name value))) ∧
      ((loop.initial ++ loop.appended rounds).length = rounds.length →
        loop.turns (left + 2) t = .ok .normal t) := by
  obtain ⟨contents, -, along⟩ := h.visited went lets
  obtain ⟨iterator, found, has, current⟩ := along.stands
  rw [contents] at has current
  have asked : cursorHasItems (left + 1) (.direct loop.iterator) loop.line t =
      .ok (decide (rounds.length < (loop.initial ++ loop.appended rounds).length)) t := by
    rw [cursorHasItems_direct, iteratorHasItems_eq, found]
    simp only [has]
  constructor
  · intro value there
    obtain ⟨lt, -⟩ := List.getElem?_eq_some_iff.1 there
    rw [decide_eq_true lt] at asked
    refine .mk (passes_of_current asked ?_ (.begins rfl))
    rw [cursorCurrent_direct, iteratorCurrent_eq]
    simp only [found, current, there]
  · intro all
    rw [decide_eq_false (by omega)] at asked
    rw [Loop.turns, forEach_succ, bind_of_ok asked]
    rfl

end Loop

section Session

variable {loop : Loop} {input : Input} {room : Option Nat} {clock : Nat} {commands : List Command}

/-- **A `foreach` loop visits what the collection held, and then all that has been appended.**  The
loop is one over a list or a linked list, and the bodies of its rounds only append to it, as often
as they like.

* After some rounds the collection holds what it held before the loop and all that has been
  appended.  The values that have been visited are the first of these, one for each round.
* If there is another one, the body runs next with the variable at this value.  If there is none,
  the loop ends at once.
* So a loop that ends by itself has visited all of them.
* Two loops over collections that held the same, in which the same is appended in the same rounds,
  visit the same, be they over lists or over linked lists. -/
theorem foreach_visits_what_is_appended
    (comes : loop.ComesUp (Past.after input room clock commands)) :
    (∀ rounds left t, loop.Rounds rounds left t → loop.Lets rounds →
      (t.heap.contents loop.collection = loop.initial ++ loop.appended rounds ∧
        rounds.map Round.value = (loop.initial ++ loop.appended rounds).take rounds.length ∧
        rounds.length ≤ (loop.initial ++ loop.appended rounds).length) ∧
      exec (loop.fuel + 1) loop.statement loop.start = loop.turns left t ∧
      ∀ fewer, left = fewer + 2 →
        (∀ value, (loop.initial ++ loop.appended rounds)[rounds.length]? = some value →
          Moment.Next
            (.begins left (.forEach (.direct loop.iterator) loop.line loop.name loop.body) t)
            (.begins (fewer + 1) (.exec loop.body) (t.inTurn loop.name value))) ∧
        ((loop.initial ++ loop.appended rounds).length = rounds.length →
          loop.turns left t = .ok .normal t)) ∧
    (∀ t, exec (loop.fuel + 1) loop.statement loop.start = .ok .normal t →
      ∃ rounds left, loop.Rounds rounds left t ∧ (loop.Lets rounds →
        rounds.map Round.value = loop.initial ++ loop.appended rounds ∧
        t.heap.contents loop.collection = loop.initial ++ loop.appended rounds)) ∧
    ∀ (other : Loop) (input' : Input) (room' : Option Nat) (clock' : Nat)
      (commands' : List Command), other.ComesUp (Past.after input' room' clock' commands') →
      other.initial = loop.initial →
      ∀ rounds left t rounds' left' t', loop.Rounds rounds left t → loop.Lets rounds →
        other.Rounds rounds' left' t' → other.Lets rounds' →
        rounds'.map (Operation.appendedTo other.collection ·.operations) =
          rounds.map (Operation.appendedTo loop.collection ·.operations) →
        rounds'.map Round.value = rounds.map Round.value ∧
          t'.heap.contents other.collection = t.heap.contents loop.collection := by
  have ready := comes.ready
  refine ⟨?_, ?_, ?_⟩
  · intro rounds left t went lets
    obtain ⟨contents, values, -⟩ := ready.visited went lets
    refine ⟨⟨contents, values, ?_⟩, ready.exec_eq.trans went.forEach_eq, ?_⟩
    · have lengths := congrArg List.length values
      rw [List.length_map, List.length_take] at lengths
      omega
    · rintro fewer rfl
      exact ready.goes_on went lets
  · intro t ended
    rw [ready.exec_eq] at ended
    obtain ⟨rounds, left, went, exhausted⟩ := Rounds.of_forEach ended
    refine ⟨rounds, left, went, fun lets => ?_⟩
    obtain ⟨contents, values, along⟩ := ready.visited went lets
    obtain ⟨iterator, found, has, -⟩ := along.stands
    rw [iteratorHasItems_eq, found] at exhausted
    have none_left : t.heap.hasItems iterator = false := by
      injection exhausted
    rw [none_left, contents, eq_comm, decide_eq_false_iff_not, Nat.not_lt] at has
    exact ⟨by rw [values, List.take_of_length_le has], contents⟩
  · intro other input' room' clock' commands' comes' same rounds left t rounds' left' t' went lets
      went' lets' appended
    obtain ⟨contents, values, -⟩ := ready.visited went lets
    obtain ⟨contents', values', -⟩ := comes'.ready.visited went' lets'
    have length : rounds'.length = rounds.length := by
      simpa using congrArg List.length appended
    have all : other.appended rounds' = loop.appended rounds := by
      simpa only [Loop.appended, List.flatMap_def] using congrArg List.flatten appended
    rw [values, values', contents, contents', same, all, length]
    exact ⟨rfl, rfl⟩

end Session

/-! ## 4. A loop that appends -/

/-- A method of a built-in class is found on its instances, if no field hides it. -/
theorem Eval.getProperty_of_class {s : State} {id : InstanceId} {kind : BuiltinClass}
    {name : String} {method : BuiltinMethod} (cls : s.heap.class? id = some (.builtin kind))
    (unhidden : s.heap.field? id name = none) (own : kind.method? name = some method) (line : Nat) :
    getProperty id name line s = .ok (.callable (.bound ⟨id, .builtin method⟩)) s := by
  have found : (s.heap.class? id).bind (·.findMethod? name) = some (.builtin method) := by
    rw [cls, Option.bind_some, Class.findMethod?, own]
    rfl
  rw [getProperty, look_bind, unhidden, found]
  rfl

namespace Iteration

/-- The loop of a statement that begins, if it is one over a list. -/
def loop? : Moment → Option Loop
  | .begins (fuel + 1) (.exec (.forEach line name iterable body)) start =>
    match eval fuel iterable start with
    | .ok (.inst collection) found =>
      match invoke fuel (.inst collection) "iterate" [] line found with
      | .ok (.inst iterator) first =>
        some ⟨line, name, iterable, body, fuel, start, collection, .list, found, iterator, first⟩
      | _ => none
    | _ => none
  | _ => none

theorem loop?_eq_some {m : Moment} {loop : Loop} (h : loop? m = some loop) :
    m = .begins (loop.fuel + 1) (.exec loop.statement) loop.start ∧
      eval loop.fuel loop.iterable loop.start = .ok (.inst loop.collection) loop.found ∧
      invoke loop.fuel (.inst loop.collection) "iterate" [] loop.line loop.found =
        .ok (.inst loop.iterator) loop.first ∧ loop.kind = .list := by
  unfold loop? at h
  split at h
  · split at h
    · rename_i evaluated
      split at h
      · rename_i iterated
        cases h
        exact ⟨rfl, evaluated, iterated, rfl⟩
      · cases h
    · cases h
  · cases h

/-- The rounds that a loop goes through from a state on, with what is left behind them. -/
def roundsOf (loop : Loop) : Nat → State → List Round × Nat × State
  | 0, s => ([], 0, s)
  | fuel + 1, s =>
    match cursorHasItems fuel (.direct loop.iterator) loop.line s with
    | .ok true s₁ =>
      match turnBody fuel (.direct loop.iterator) loop.line loop.name loop.body s₁ with
      | .ok (value, .normal) s₂ =>
        match cursorAdvance fuel (.direct loop.iterator) loop.line s₂ with
        | .ok () t =>
          let later := roundsOf loop fuel t
          (⟨value, (Task.exec loop.body).operations fuel (s.inTurn loop.name value)⟩ :: later.1,
            later.2)
        | _ => ([], fuel + 1, s)
      | _ => ([], fuel + 1, s)
    | _ => ([], fuel + 1, s)

theorem rounds_roundsOf (loop : Loop) (fuel : Nat) (s : State) :
    Rounds loop.iterator loop.line loop.name loop.body fuel s (roundsOf loop fuel s).1
      (roundsOf loop fuel s).2.1 (roundsOf loop fuel s).2.2 := by
  induction fuel generalizing s with
  | zero => exact .start 0 s
  | succ fuel ih =>
    unfold roundsOf
    split
    · split
      · split
        · exact .round ⟨_, _, ‹_›, ‹_›, ‹_›⟩ (ih _)
        · exact .start _ s
      · exact .start _ s
    · exact .start _ s

/-- Whether the collection of a loop is a list whose `iterate` is not hidden. -/
def isPlain (loop : Loop) : Bool :=
  match loop.found.heap.payload? loop.collection, loop.found.heap.class? loop.collection,
      loop.found.heap.field? loop.collection "iterate" with
  | some (.list _), some (.builtin .list), none => true
  | _, _, _ => false

theorem comesUp_of_isPlain {m : Moment} {past : Past} {loop : Loop} (begins : past.moments m)
    (h : loop? m = some loop) (plain : isPlain loop = true) : loop.ComesUp past := by
  obtain ⟨rfl, evaluated, iterated, kind⟩ := loop?_eq_some h
  unfold isPlain at plain
  split at plain
  · rename_i held cls unhidden
    refine ⟨begins, evaluated, kind ▸ .list held, ?_, iterated⟩
    rw [kind]
    exact getProperty_of_class cls unhidden rfl _
  · cases plain

/-- Whether the bodies of some rounds only append to the list of a loop. -/
def lets (loop : Loop) (rounds : List Round) : Bool :=
  rounds.all fun round => round.operations.all fun operation =>
    operation.method == .listAppend && operation.self != loop.iterator

theorem lets_of_lets {loop : Loop} {rounds : List Round} (h : lets loop rounds = true) :
    loop.Lets rounds := by
  intro round mem operation mem'
  have only := List.all_eq_true.1 (List.all_eq_true.1 h round mem) operation mem'
  simp only [Bool.and_eq_true, beq_iff_eq, bne_iff_ne] at only
  exact ⟨fun _ => by simp [only.1], fun on => absurd on only.2⟩

/-- A loop over a list of one element whose first body appends another one. -/
def program : List Stmt :=
  [.varDecl ⟨"l", 1⟩ (some (.list 1 [.literal (.string "a")])),
    .varDecl ⟨"go", 1⟩ (some (.literal (.boolean true))),
    .forEach 1 ⟨"x", 1⟩ (.variable ⟨0, ⟨"l", 1⟩⟩) (.ifElse (.variable ⟨1, ⟨"go", 1⟩⟩)
      (.expression (.assign ⟨4, ⟨"go", 1⟩⟩ (.call (.get (.variable ⟨3, ⟨"l", 1⟩⟩) ⟨"append", 1⟩)
        [.literal (.string "b")] 1))) none)]

/-- What is to be seen of the loop: it goes through two rounds, in the first of which an element is
appended. -/
def seen (loop : Loop) : Bool :=
  let rounds := (roundsOf loop loop.fuel loop.first).1
  isPlain loop && lets loop rounds && rounds.length == 2 && loop.initial.length == 1 &&
    (loop.appended rounds).length == 1

end Iteration

/-- A loop over a list of one element also visits the element that its body appends. -/
theorem appended_element_is_visited :
    ∃ (loop : Loop) (rounds : List Round) (left : Nat) (t : State),
      loop.ComesUp (Past.after ⟨[], true⟩ none 0
        [.run 30 "var l = [\"a\"]; var go = true; foreach (x; l) if (go) go = l.append(\"b\");"]) ∧
      loop.Rounds rounds left t ∧ loop.Lets rounds ∧ loop.initial.length = 1 ∧
      (loop.appended rounds).length = 1 ∧
      rounds.map Round.value = loop.initial ++ loop.appended rounds := by
  obtain ⟨m, happened, found⟩ := Course.moment_of_trace (.new ⟨[], true⟩ none 0) 30
    "var l = [\"a\"]; var go = true; foreach (x; l) if (go) go = l.append(\"b\");"
    Iteration.program (by cbv) (fun m => (Iteration.loop? m).any Iteration.seen) (by decide +kernel)
  obtain ⟨loop, comes, seen⟩ := (Option.any_eq_true ..).1 found
  simp only [Iteration.seen, Bool.and_eq_true, beq_iff_eq] at seen
  obtain ⟨⟨⟨⟨plain, lets⟩, two⟩, one⟩, another⟩ := seen
  have up : loop.ComesUp (Past.after ⟨[], true⟩ none 0
      [.run 30 "var l = [\"a\"]; var go = true; foreach (x; l) if (go) go = l.append(\"b\");"]) :=
    Iteration.comesUp_of_isPlain happened comes plain
  have went := Iteration.rounds_roundsOf loop loop.fuel loop.first
  obtain ⟨⟨-, values, -⟩, -⟩ := (foreach_visits_what_is_appended up).1 _ _ _ went
    (Iteration.lets_of_lets lets)
  refine ⟨loop, _, _, _, up, went, Iteration.lets_of_lets lets, one, another, ?_⟩
  rw [values, two, List.take_of_length_le]
  rw [List.length_append, one, another]

end Lox
