/-
# Loops over ranges

A `foreach` loop over a range visits the terms of an arithmetic progression one after the other,
from the one on that the range stands at, and ends with the last of them; and so does stepping the
range by hand.  The bodies may neither step the range nor make it anew, and no field of the range
may hide its method `iterate`.

Main statement: `ranges_are_progressions`.
-/
import Mathlib
import Lox.Proofs.Session.Iteration
import Lox.Proofs.Token.Segment
import Lox.Proofs.Value.Progression

namespace Lox

open Eval

/-! ## 1. Rounds -/

/-- An operation neither steps a range nor makes it anew. -/
def Operation.Leaves (operation : Operation) (id : InstanceId) : Prop :=
  operation.self = id → operation.method ∉ [BuiltinMethod.rangeInit, .move]

/-- Operations that leave a range alone do not step it. -/
theorem Operation.steps_of_leaves {id : InstanceId} {operations : List Operation}
    (leaves : ∀ operation ∈ operations, operation.Leaves id) : steps id operations = 0 := by
  refine List.sum_eq_zero fun n mem => ?_
  obtain ⟨operation, there, rfl⟩ := List.mem_map.1 mem
  refine if_neg ?_
  rintro ⟨on, move, -⟩
  exact leaves operation there on (by simp [move])

section Turns

variable {it : InstanceId} {line fuel left passed : Nat} {name : Name} {body : Stmt}
  {s t u : State} {value : Value} {p : Progression} {rounds : List Round}

/-- In a turn the next term is visited and passed. -/
theorem Eval.Turns.ranges (h : Turns it line fuel name body s value u t)
    (fit : Moment.Fit Operation.Suits ((Task.exec body).trace fuel (s.inTurn name value)))
    (leaves : ∀ operation ∈ (Task.exec body).operations fuel (s.inTurn name value),
      operation.Leaves it)
    (ranges : s.heap.Ranges it p passed) :
    value.IsInteger (p.term passed) ∧ t.heap.Ranges it p (passed + 1) := by
  cases fuel with
  | zero =>
    have has := h.has
    simp only [cursorHasItems] at has
    cases has
  | succ fuel =>
    obtain ⟨iterator, found, items, current, -, -⟩ := ranges.stands
    have has := h.has
    have given := h.current
    have advanced := h.advanced
    simp only [cursorHasItems_direct, iteratorHasItems_eq, found] at has
    simp only [cursorCurrent_direct, iteratorCurrent_eq, found] at given
    have lt : passed < p.count := by
      rw [items] at has
      simpa using has
    have integer : value.IsInteger (p.term passed) := by
      obtain ⟨term, there, integer⟩ := current lt
      rw [there] at given
      cases given
      exact integer
    -- the body leaves the range where it is
    have run := (Task.exec body).undergoes
      (p := fun operation heap => operation.Suits heap ∧ operation.Leaves it) (fuel + 1)
      (s.inTurn name value) fun m mem operation begins =>
        ⟨fit m mem operation begins, leaves operation (List.mem_filterMap.2 ⟨m, mem, begins⟩)⟩
    rw [show endState ((Task.exec body).run (fuel + 1) (s.inTurn name value)) = u by
      rw [Task.run, h.ran]
      rfl] at run
    have behind := ranges.undergoes
      (fun _ _ fits => ⟨fits.1, fun on init => fits.2 on (by simp [init])⟩) run
    rw [Operation.steps_of_leaves leaves, Nat.add_zero, Nat.min_eq_left ranges.le] at behind
    obtain ⟨iterator', found', -, -, -, stepped⟩ := behind.stands
    simp only [cursorAdvance_direct, iteratorAdvance_eq, found'] at advanced
    cases advanced
    rw [Nat.min_eq_left lt] at stepped
    exact ⟨integer, stepped⟩

/-- **What rounds visit** are the next terms, one for each round. -/
theorem Rounds.ranges (h : Rounds it line name body fuel s rounds left t)
    (fit : Moment.Fit Operation.Suits ((Task.forEach (.direct it) line name body).trace fuel s))
    (leaves : ∀ round ∈ rounds, ∀ operation ∈ round.operations, operation.Leaves it)
    (ranges : s.heap.Ranges it p passed) :
    t.heap.Ranges it p (passed + rounds.length) ∧
      List.Forall₂ Value.IsInteger (rounds.map Round.value)
        ((List.range' passed rounds.length).map p.term) := by
  induction h generalizing passed with
  | start => exact ⟨ranges, .nil⟩
  | @round fuel left s t u value rounds turn rest ih =>
    obtain ⟨v, turns⟩ := turn.turns
    obtain ⟨integer, behind⟩ := turns.ranges (fit.of_next turns.next.1)
      (leaves _ List.mem_cons_self) ranges
    obtain ⟨later, values⟩ := ih (fit.of_next turns.next.2)
      (fun round mem => leaves round (List.mem_cons_of_mem _ mem)) behind
    refine ⟨?_, .cons integer values⟩
    rw [List.length_cons, Nat.add_comm rounds.length, ← Nat.add_assoc]
    exact later

end Turns

/-! ## 2. Loops -/

namespace Loop

/-- The bodies of some rounds leave the range alone. -/
def Leaves (loop : Loop) (rounds : List Round) : Prop :=
  ∀ round ∈ rounds, ∀ operation ∈ round.operations, operation.Leaves loop.collection

/-- A loop over a range that comes up in a session.  The range has passed some terms, and no field
hides its method `iterate`. -/
structure OverRange (loop : Loop) (past : Past) (p : Progression) (passed : Nat) : Prop where
  begins : past.moments (.begins (loop.fuel + 1) (.exec loop.statement) loop.start)
  evaluated : eval loop.fuel loop.iterable loop.start = .ok (.inst loop.collection) loop.found
  ranges : loop.found.heap.Ranges loop.collection p passed
  cls : loop.found.heap.class? loop.collection = some (.builtin .range)
  unhidden : loop.found.heap.field? loop.collection "iterate" = none
  iterated : invoke loop.fuel (.inst loop.collection) "iterate" [] loop.line loop.found =
    .ok (.inst loop.iterator) loop.first

variable {loop : Loop} {p : Progression} {passed : Nat}

/-- What is so before the first turn: the range is its own iterator, and it is as it was. -/
structure RangeReady (loop : Loop) (p : Progression) (passed : Nat) : Prop where
  own : loop.iterator = loop.collection
  exec_eq : exec (loop.fuel + 1) loop.statement loop.start = loop.turns loop.fuel loop.first
  fit : Moment.Fit Operation.Suits
    (Task.trace loop.fuel (.forEach (.direct loop.iterator) loop.line loop.name loop.body)
      loop.first)
  ranges : loop.first.heap.Ranges loop.iterator p passed

section Session

variable {input : Input} {room : Option Nat} {clock : Nat} {commands : List Command}

theorem OverRange.ready (h : loop.OverRange (Past.after input room clock commands) p passed) :
    loop.RangeReady p passed := by
  have found : getProperty loop.collection "iterate" loop.line loop.found =
      .ok (.callable (.bound ⟨loop.collection, .builtin .rangeIterate⟩)) loop.found :=
    getProperty_of_class h.cls h.unhidden rfl _
  obtain ⟨answer, same⟩ := run_of_invoke found h.iterated
  have own : loop.collection = loop.iterator := Value.inst.inj (Except.ok.inj answer)
  change loop.found.heap = loop.first.heap at same
  obtain ⟨iterator, held, -⟩ := h.ranges.stands
  have stepped : cursorFor (.inst loop.iterator) loop.first =
      .ok (.direct loop.iterator) loop.first := by
    rw [cursorFor, look_bind, ← same, ← own]
    simp only [h.cls, held]
    rfl
  have turns : Moment.Next (.begins (loop.fuel + 1) (.exec loop.statement) loop.start)
      (.begins loop.fuel (.forEach (.direct loop.iterator) loop.line loop.name loop.body)
        loop.first) :=
    .mk (.call h.evaluated (.call h.iterated (.act stepped (.begins rfl))))
  constructor
  case own => exact own.symm
  case exec_eq =>
    simp only [statement, exec, bind_of_ok h.evaluated, bind_of_ok h.iterated, bind_of_ok stepped,
      Loop.turns]
  case fit => exact (Course.suits h.begins).of_next turns
  case ranges => exact own ▸ same ▸ h.ranges

end Session

variable {rounds : List Round} {left : Nat} {t : State}

/-- What some rounds have visited, and where the range stands behind them. -/
theorem RangeReady.visited (h : loop.RangeReady p passed) (went : loop.Rounds rounds left t)
    (leaves : loop.Leaves rounds) :
    t.heap.Ranges loop.iterator p (passed + rounds.length) ∧
      List.Forall₂ Value.IsInteger (rounds.map Round.value)
        ((List.range' passed rounds.length).map p.term) := by
  refine Rounds.ranges went h.fit (fun round mem operation mem' => ?_) h.ranges
  rw [h.own]
  exact leaves round mem operation mem'

/-- How the loop goes on behind some rounds. -/
theorem RangeReady.goes_on (h : loop.RangeReady p passed) (went : loop.Rounds rounds (left + 2) t)
    (leaves : loop.Leaves rounds) :
    (passed + rounds.length < p.count →
      ∃ value : Value, value.IsInteger (p.term (passed + rounds.length)) ∧ Moment.Next
        (.begins (left + 2) (.forEach (.direct loop.iterator) loop.line loop.name loop.body) t)
        (.begins (left + 1) (.exec loop.body) (t.inTurn loop.name value))) ∧
      (passed + rounds.length = p.count → loop.turns (left + 2) t = .ok .normal t) := by
  obtain ⟨ranges, -⟩ := h.visited went leaves
  obtain ⟨iterator, found, has, current, -, -⟩ := ranges.stands
  have asked : cursorHasItems (left + 1) (.direct loop.iterator) loop.line t =
      .ok (decide (passed + rounds.length < p.count)) t := by
    rw [cursorHasItems_direct, iteratorHasItems_eq, found]
    simp only [has]
  constructor
  · intro lt
    obtain ⟨value, given, integer⟩ := current lt
    rw [decide_eq_true lt] at asked
    refine ⟨value, integer, .mk (passes_of_current asked ?_ (.begins rfl))⟩
    rw [cursorCurrent_direct, iteratorCurrent_eq]
    simp only [found, given]
  · intro all
    rw [decide_eq_false (by omega)] at asked
    rw [Loop.turns, forEach_succ, bind_of_ok asked]
    rfl

/-- A loop that ends by itself has visited all terms that were left. -/
theorem RangeReady.ended (h : loop.RangeReady p passed)
    (done : exec (loop.fuel + 1) loop.statement loop.start = .ok .normal t) :
    ∃ rounds left, loop.Rounds rounds left t ∧ (loop.Leaves rounds →
      List.Forall₂ Value.IsInteger (rounds.map Round.value)
          ((List.range' passed (p.count - passed)).map p.term) ∧
        t.heap.Ranges loop.iterator p p.count) := by
  rw [h.exec_eq] at done
  obtain ⟨rounds, left, went, exhausted⟩ := Rounds.of_forEach done
  refine ⟨rounds, left, went, fun leaves => ?_⟩
  obtain ⟨ranges, values⟩ := h.visited went leaves
  obtain ⟨iterator, found, has, -⟩ := ranges.stands
  rw [iteratorHasItems_eq, found] at exhausted
  have none_left : t.heap.hasItems iterator = false := by
    injection exhausted
  rw [none_left, eq_comm, decide_eq_false_iff_not] at has
  have all : passed + rounds.length = p.count := by
    have le := ranges.le
    omega
  rw [all] at ranges
  rw [show p.count - passed = rounds.length by omega]
  exact ⟨values, ranges⟩

end Loop

/-! ## 3. Making ranges -/

/-- A call that the number of calls in progress leaves room for gives what is called. -/
theorem Eval.call_of_apply {fuel line : Nat} {callable : Callable} {arguments : List Value}
    {s t : State} {value : Value} (arity : callable.arity = arguments.length)
    (room : s.depth < maxDepth)
    (ran : apply fuel callable arguments line { s with depth := s.depth + 1 } = .ok value t) :
    call (fuel + 1) (.callable callable) arguments line s =
      .ok value { t with depth := t.depth - 1 } := by
  simp only [call, if_pos arity, nested, if_neg (Nat.not_le.2 room), ran]

/-- A call of the class of ranges with integers makes a range that has passed nothing. -/
theorem Eval.call_range {p : Progression} {first last step : Float}
    (begins : Decimal.IsInteger first p.first) (ends : Decimal.IsInteger last p.last)
    (steps : Decimal.IsInteger step p.step) (fuel line : Nat) {s : State}
    (room : s.depth < maxDepth) :
    ∃ t, call (fuel + 3) (.callable (.class (.builtin .range)))
        [.number first, .number last, .number step] line s =
          .ok (.inst s.heap.instances.size) t ∧
      t.heap.Ranges s.heap.instances.size p 0 ∧
      t.heap.class? s.heap.instances.size = some (.builtin .range) ∧
      (∀ name, t.heap.field? s.heap.instances.size name = none) ∧
      t.depth = s.depth := by
  have there : (s.heap.add (.builtin .range) none).2.class? s.heap.instances.size =
      some (.builtin .range) := by rw [Heap.class?_add, if_pos rfl]
  obtain ⟨made, ranges⟩ := Heap.Ranges.start begins ends steps there line
  have ran : apply (fuel + 2) (.class (.builtin .range))
      [.number first, .number last, .number step] line { s with depth := s.depth + 1 } =
        .ok (.inst s.heap.instances.size) { s with
          depth := s.depth + 1
          heap := (s.heap.add (.builtin .range) none).2.setPayload s.heap.instances.size
            (.iterator (.range first last step)) } := by
    have initialized := Operation.run_eq ⟨.rangeInit, s.heap.instances.size,
      [.number first, .number last, .number step], line⟩
      { s with depth := s.depth + 1, heap := (s.heap.add (.builtin .range) none).2 }
    rw [made] at initialized
    have method : (Class.builtin .range).findMethod? initializerName =
      some (.builtin .rangeInit) := rfl
    simp only [apply, method, applyMethod]
    exact bind_of_ok initialized _
  refine ⟨_, call_of_apply rfl room ran, ranges, ?_, fun name => ?_, rfl⟩
  · rw [Heap.class?_setPayload, there]
  · rw [Heap.field?_setPayload, Heap.field?_add]
    simp [Heap.field?]

/-- A range gives itself as its iterator. -/
theorem Eval.invoke_iterate {id : InstanceId} {s : State}
    (cls : s.heap.class? id = some (.builtin .range))
    (unhidden : s.heap.field? id "iterate" = none) (room : s.depth < maxDepth) (fuel line : Nat) :
    invoke (fuel + 4) (.inst id) "iterate" [] line s = .ok (.inst id) s := by
  have ran : apply (fuel + 2) (.bound ⟨id, .builtin .rangeIterate⟩) [] line
      { s with depth := s.depth + 1 } = .ok (.inst id) { s with depth := s.depth + 1 } := by
    simp only [apply, applyMethod]
    rfl
  simp only [invoke, bind_of_ok (getProperty_of_class cls unhidden rfl line)]
  exact call_of_apply rfl room ran

/-! ## 4. Arithmetic progressions -/

section Session

variable (input : Input) (room : Option Nat) (clock : Nat) (commands : List Command)

/-- **A range goes through an arithmetic progression** of integers that are not too large.

* The terms are those in front of the end, and there are as many as the distance holds steps,
  rounded up.
* A call of the class makes a range that has passed none of them, and a range gives itself as its
  iterator.
* A range has items until it has passed all terms.  Until then `get` gives the first one that it has
  not passed; then it fails, and `move` changes nothing.  Asking a range changes nothing either.
* In a session a range that is not made anew goes on by the steps that are carried out on it, up to
  the end, and stays there.
* A loop over a range, the bodies of whose rounds leave it alone, visits the terms that the range
  has not passed, one in each round.  If there is another one, the body runs next with the variable
  at this value; if there is none, the loop ends at once.  So a loop that ends by itself has visited
  all of them, and the range has passed them. -/
theorem ranges_are_progressions (p : Progression) :
    (∀ k, k < p.count ↔ p.InFront k) ∧
    (∀ (first last step : Float) (fuel line : Nat) (s : State),
      Decimal.IsInteger first p.first → Decimal.IsInteger last p.last →
      Decimal.IsInteger step p.step → s.depth < maxDepth →
      ∃ id t, call (fuel + 3) (.callable (.class (.builtin .range)))
          [.number first, .number last, .number step] line s = .ok (.inst id) t ∧
        t.heap.Ranges id p 0 ∧ t.heap.class? id = some (.builtin .range) ∧
        (∀ name, t.heap.field? id name = none) ∧
        invoke (fuel + 4) (.inst id) "iterate" [] line t = .ok (.inst id) t) ∧
    (∀ (s : State) (id : InstanceId) (passed line : Nat), s.heap.Ranges id p passed →
      (Operation.mk .hasItems id [] line).run s = .ok (.boolean (decide (passed < p.count))) s ∧
      (passed < p.count → ∃ value, Value.IsInteger value (p.term passed) ∧
        (Operation.mk .get id [] line).run s = .ok value s) ∧
      (passed = p.count →
        (Operation.mk .get id [] line).run s = .error (.error ⟨.builtin .exhausted, line⟩) s ∧
        (Operation.mk .move id [] line).run s = .ok .nil s) ∧
      ∃ t, (Operation.mk .move id [] line).run s = .ok .nil t ∧
        t.heap.Ranges id p (min (passed + 1) p.count)) ∧
    (∀ (fuel : Nat) (task : Task) (s : State) (id : InstanceId) (passed : Nat),
      (Past.after input room clock commands).moments (.begins fuel task s) →
      s.heap.Ranges id p passed →
      (∀ operation ∈ task.operations fuel s,
        operation.self = id → operation.method ≠ .rangeInit) →
      (endState (task.run fuel s)).heap.Ranges id p
        (min (passed + Operation.steps id (task.operations fuel s)) p.count)) ∧
    ∀ (loop : Loop) (passed : Nat),
      loop.OverRange (Past.after input room clock commands) p passed →
      (∀ rounds left t, loop.Rounds rounds left t → loop.Leaves rounds →
        List.Forall₂ Value.IsInteger (rounds.map Round.value)
            ((List.range' passed rounds.length).map p.term) ∧
          t.heap.Ranges loop.collection p (passed + rounds.length) ∧
          exec (loop.fuel + 1) loop.statement loop.start = loop.turns left t ∧
          ∀ fewer, left = fewer + 2 →
            (passed + rounds.length < p.count →
              ∃ value, Value.IsInteger value (p.term (passed + rounds.length)) ∧ Moment.Next
                (.begins left (.forEach (.direct loop.iterator) loop.line loop.name loop.body) t)
                (.begins (fewer + 1) (.exec loop.body) (t.inTurn loop.name value))) ∧
            (passed + rounds.length = p.count → loop.turns left t = .ok .normal t)) ∧
      ∀ t, exec (loop.fuel + 1) loop.statement loop.start = .ok .normal t →
        ∃ rounds left, loop.Rounds rounds left t ∧ (loop.Leaves rounds →
          List.Forall₂ Value.IsInteger (rounds.map Round.value)
              ((List.range' passed (p.count - passed)).map p.term) ∧
            t.heap.Ranges loop.collection p p.count) := by
  refine ⟨fun _ => p.lt_count_iff, ?made, ?asked, ?later, ?loops⟩
  case made =>
    intro first last step fuel line s begins ends steps free
    obtain ⟨t, made, ranges, cls, fields, depth⟩ := call_range begins ends steps fuel line free
    exact ⟨_, t, made, ranges, cls, fields,
      invoke_iterate cls (fields _) (depth ▸ free) fuel line⟩
  case asked =>
    intro s id passed line ranges
    exact ranges.answers line
  case later =>
    intro fuel task s id passed begun ranges keeps
    refine ranges.undergoes (fun _ _ fits => fits) (task.undergoes (p := fun operation heap =>
      operation.Suits heap ∧ (operation.self = id → operation.method ≠ .rangeInit)) fuel s ?_)
    exact fun m mem operation begins =>
      ⟨Course.suits begun m mem operation begins, keeps _ (List.mem_filterMap.2 ⟨m, mem, begins⟩)⟩
  case loops =>
    intro loop passed comes
    have ready := comes.ready
    rw [← ready.own]
    refine ⟨fun rounds left t went leaves => ?_, fun t done => ready.ended done⟩
    obtain ⟨ranges, values⟩ := ready.visited went leaves
    refine ⟨values, ranges, ready.exec_eq.trans went.forEach_eq, ?_⟩
    rintro fewer rfl
    exact ready.goes_on went leaves

end Session

/-! ## 5. A short range -/

/-- The progression from zero to two. -/
def Progression.zeroOne : Progression where
  first := 0
  last := 2
  step := 1
  nonzero := by decide
  first_small := by decide
  last_small := by decide
  step_small := by decide

namespace Iteration

/-- Whether a loop is one over a new range from zero to two whose `iterate` is not hidden. -/
def isZeroOne (loop : Loop) : Bool :=
  match loop.found.heap.payload? loop.collection, loop.found.heap.class? loop.collection,
      loop.found.heap.field? loop.collection "iterate" with
  | some (.iterator (.range current last step)), some (.builtin .range), none =>
    decide (current = Decimal.number 0) && decide (last = Decimal.number 2) &&
      decide (step = Decimal.number 1)
  | _, _, _ => false

theorem overRange_of_isZeroOne {m : Moment} {past : Past} {loop : Loop}
    (begins : past.moments m) (h : loop? m = some loop) (new : isZeroOne loop = true) :
    loop.OverRange past .zeroOne 0 := by
  obtain ⟨rfl, evaluated, iterated, -⟩ := loop?_eq_some h
  unfold isZeroOne at new
  split at new
  · rename_i held cls unhidden
    simp only [Bool.and_eq_true, decide_eq_true_eq] at new
    obtain ⟨⟨rfl, rfl⟩, rfl⟩ := new
    have integer : ∀ n : Int, |n| ≤ 2 ^ 53 → Decimal.IsInteger (Decimal.number n) n :=
      fun _ small => Decimal.isInteger_number small
    exact ⟨begins, evaluated, .mk held (integer 0 (by decide)) (integer 2 (by decide))
      (integer 1 (by decide)) (Nat.zero_le _), cls, unhidden, iterated⟩
  · cases new

/-- What is to be seen of the loop: it goes through two rounds whose bodies carry out nothing on the
range. -/
def seenRange (loop : Loop) : Bool :=
  let rounds := (roundsOf loop loop.fuel loop.first).1
  isZeroOne loop && rounds.all (·.operations.isEmpty) && rounds.length == 2

end Iteration

/-- A loop over the range from zero to two visits zero and one. -/
theorem short_range_is_visited :
    ∃ (loop : Loop) (rounds : List Round) (left : Nat) (t : State),
      loop.OverRange (Past.after ⟨[], true⟩ none 0
        [.run 40 "var r = Range(0, 2, 1); foreach (x; r) print x;"]) .zeroOne 0 ∧
      loop.Rounds rounds left t ∧ loop.Leaves rounds ∧
      List.Forall₂ Value.IsInteger (rounds.map Round.value) [0, 1] := by
  obtain ⟨m, happened, found⟩ := Course.moment_of_text (.new ⟨[], true⟩ none 0) 40
    "var r = Range(0, 2, 1); foreach (x; r) print x;"
    (fun m => (Iteration.loop? m).any Iteration.seenRange) (by
      rw [Session.accepted?, scan, pieces_eq_upTo (Nat.le_refl _)]
      decide +kernel)
  obtain ⟨loop, comes, seen⟩ := (Option.any_eq_true ..).1 found
  simp only [Iteration.seenRange, Bool.and_eq_true, beq_iff_eq] at seen
  obtain ⟨⟨new, still⟩, two⟩ := seen
  have up : loop.OverRange (Past.after ⟨[], true⟩ none 0
      [.run 40 "var r = Range(0, 2, 1); foreach (x; r) print x;"]) .zeroOne 0 :=
    Iteration.overRange_of_isZeroOne happened comes new
  have went := Iteration.rounds_roundsOf loop loop.fuel loop.first
  have leaves : loop.Leaves (Iteration.roundsOf loop loop.fuel loop.first).1 := by
    intro round mem operation there
    rw [List.isEmpty_iff.1 (List.all_eq_true.1 still round mem)] at there
    cases there
  obtain ⟨-, -, -, -, loops⟩ := ranges_are_progressions ⟨[], true⟩ none 0
    [.run 40 "var r = Range(0, 2, 1); foreach (x; r) print x;"] .zeroOne
  obtain ⟨values, -⟩ := (loops loop 0 up).1 _ _ _ went leaves
  rw [two] at values
  exact ⟨loop, _, _, _, up, went, leaves, values⟩

/-- **A body can also make its range anew**, and then the loop goes on through the new one, though
nothing has stepped the range but the loop; and a field can hide `iterate`, and then the loop goes
along something else. -/
theorem renewed_range_is_visited :
    (List.range Progression.zeroOne.count).map Progression.zeroOne.term = [0, 1] ∧
      ((Session.new ⟨[], true⟩ none 0).runWith 40
        "var r = Range(0, 2, 1); foreach (x; r) \x7b if (x == 0) r.init(10, 12, 1); print x; \x7d"
        ).2.state.output.text = "0\n11\n" ∧
      ((Session.new ⟨[], true⟩ none 0).runWith 40
        "var r = Range(0, 2, 1); r.iterate = [\"a\"].iterate; foreach (x; r) print x;"
        ).2.state.output.text = "a\n" := by
  refine ⟨?terms, ?renewed, ?hidden⟩
  case terms =>
    have two : Progression.zeroOne.count = 2 := by
      simp [Progression.count, Progression.zeroOne]
    rw [two]
    rfl
  case renewed =>
    rw [Session.runWith, scan, pieces_eq_upTo (Nat.le_refl _)]
    decide +kernel
  case hidden =>
    rw [Session.runWith, scan, pieces_eq_upTo (Nat.le_refl _)]
    decide +kernel

end Lox
