/-
# Ranges as arithmetic progressions

A range from one integer to another by a step goes through an arithmetic progression
(`Progression`): it has terms as long as they are in front of the end, and there are as many of them
as the distance holds steps, rounded up.  As long as the integers are not too large, the numbers in
the range are these integers exactly, so the state of the range is known by how many terms it has
passed (`Heap.Ranges`).

Only a step of the range itself changes that, and only until the end is reached; nothing else that
is carried out does, unless it makes the range anew (`Heap.Ranges.undergoes`).
-/
import Lox.Proofs.Decimal.Integer
import Lox.Proofs.Value.Interference

namespace Lox

open Decimal (IsInteger)

/-! ## 1. Progressions -/

/-- The integers of a range: where it begins, where it ends, and its step. -/
structure Progression where
  first : Int
  last : Int
  step : Int
  nonzero : step ≠ 0
  first_small : |first| ≤ 2 ^ 52
  last_small : |last| ≤ 2 ^ 52
  step_small : |step| ≤ 2 ^ 52

namespace Progression

variable (p : Progression) {k : Nat}

/-- A term of the progression. -/
def term (k : Nat) : Int := p.first + k * p.step

/-- A term that is in front of the end. -/
def InFront (k : Nat) : Prop := if 0 < p.step then p.term k < p.last else p.last < p.term k

/-- The number of terms: the number of steps in the distance, rounded up. -/
def count : Nat := ⌈((p.last - p.first : ℤ) : ℚ) / p.step⌉.toNat

/-- **The terms in front of the end are the first ones**, up to the number of terms. -/
theorem lt_count_iff : k < p.count ↔ p.InFront k := by
  have nonzero := p.nonzero
  rw [count, Int.lt_toNat, Int.lt_ceil, InFront, term]
  split
  · have pos : (0 : ℚ) < p.step := by exact_mod_cast ‹0 < p.step›
    rw [lt_div_iff₀ pos]
    norm_cast
    omega
  · have neg : (p.step : ℚ) < 0 := by exact_mod_cast (by omega : p.step < 0)
    rw [lt_div_iff_of_neg neg]
    norm_cast
    omega

theorem term_succ (k : Nat) : p.term (k + 1) = p.term k + p.step := by
  unfold term
  push_cast
  ring

/-- Terms up to the end are small, and so are the end and the step. -/
theorem small_term (le : k ≤ p.count) : Decimal.Small (p.term k) := by
  have first := p.first_small
  have last := p.last_small
  have step := p.step_small
  rw [abs_le] at first last step
  cases k with
  | zero =>
    rw [Decimal.Small, abs_le, term]
    constructor <;> push_cast <;> omega
  | succ k =>
    -- the term before is between the first one and the end
    have front := p.lt_count_iff.1 le
    have term : p.term k = p.first + k * p.step := rfl
    rw [Decimal.Small, abs_le, term_succ]
    unfold InFront at front
    split at front
    · have : 0 ≤ k * p.step := by positivity
      constructor <;> omega
    · have : (k : ℤ) * p.step ≤ 0 := mul_nonpos_of_nonneg_of_nonpos (by positivity) (by omega)
      constructor <;> omega

theorem small_last : Decimal.Small p.last :=
  p.last_small.trans (by norm_num)

theorem small_step : Decimal.Small p.step :=
  p.step_small.trans (by norm_num)

end Progression

/-! ## 2. Ranges -/

/-- An instance holds a range that has passed some terms of a progression. -/
inductive Heap.Ranges (heap : Heap) (id : InstanceId) (p : Progression) (passed : Nat) : Prop
  | mk {current last step : Float}
      (held : heap.payload? id = some (.iterator (.range current last step)))
      (stands : IsInteger current (p.term passed)) (ends : IsInteger last p.last)
      (steps : IsInteger step p.step) (le : passed ≤ p.count)

/-- A value is a number that is an integer. -/
def Value.IsInteger (value : Value) (n : Int) : Prop :=
  ∃ x, value = .number x ∧ Decimal.IsInteger x n

namespace Heap

variable {heap heap' : Heap} {id : InstanceId} {p : Progression} {passed : Nat}

theorem hasItems_range (heap : Heap) {current last step : Float}
    (stands : IsInteger current (p.term passed)) (ends : IsInteger last p.last)
    (steps : IsInteger step p.step) (le : passed ≤ p.count) :
    heap.hasItems (.range current last step) = decide (passed < p.count) := by
  have up : 0 < step ↔ 0 < p.step :=
    Decimal.isInteger_zero.lt_iff steps (by norm_num [Decimal.Small]) p.small_step
  have before : current < last ↔ p.term passed < p.last :=
    stands.lt_iff ends (p.small_term le) p.small_last
  have behind : last < current ↔ p.last < p.term passed :=
    ends.lt_iff stands p.small_last (p.small_term le)
  have front := p.lt_count_iff (k := passed)
  unfold Progression.InFront at front
  dsimp only [hasItems]
  by_cases rises : 0 < p.step
  · rw [if_pos (up.2 rises)]
    rw [if_pos rises, ← before] at front
    exact decide_eq_decide.2 front.symm
  · rw [if_neg (up.not.2 rises)]
    rw [if_neg rises, ← behind] at front
    exact decide_eq_decide.2 front.symm

end Heap

/-- How often an operation steps a range. -/
def Operation.stepsOf (operation : Operation) (id : InstanceId) : Nat :=
  if operation.self = id ∧ operation.method = .move ∧ operation.arguments = [] then 1 else 0

/-- How often some operations step a range. -/
def Operation.steps (id : InstanceId) (operations : List Operation) : Nat :=
  (operations.map (·.stepsOf id)).sum

namespace Heap

variable {heap heap' : Heap} {id : InstanceId} {p : Progression} {passed : Nat}

namespace Ranges

theorem le (h : heap.Ranges id p passed) : passed ≤ p.count := by
  cases h
  assumption

/-- A range has items until all terms have been passed, and stands at the first that has not. -/
theorem stands (h : heap.Ranges id p passed) :
    ∃ iterator, heap.iterator? id = some iterator ∧
      heap.hasItems iterator = decide (passed < p.count) ∧
      (passed < p.count → ∃ value, heap.current? iterator = some value ∧
        value.IsInteger (p.term passed)) ∧
      (passed = p.count → heap.current? iterator = none ∧ heap.advance iterator = iterator) ∧
      (heap.setPayload id (.iterator (heap.advance iterator))).Ranges id p
        (min (passed + 1) p.count) := by
  obtain ⟨held, stands, ends, steps, le⟩ := h
  rename_i current last step
  have items := hasItems_range heap stands ends steps le
  refine ⟨_, iterator?_eq_some.2 held, items, ?_, ?_, ?_⟩
  · intro lt
    rw [decide_eq_true lt] at items
    refine ⟨.number current, ?_, current, rfl, stands⟩
    rw [Heap.current?.eq_def, items]
    rfl
  · rintro rfl
    rw [decide_eq_false (Nat.lt_irrefl _)] at items
    rw [Heap.current?.eq_def, Heap.advance.eq_def, items]
    exact ⟨rfl, rfl⟩
  · have now := payload?_setPayload_held held
      (.iterator (heap.advance (.range current last step)))
    rw [Heap.advance.eq_def, items] at now ⊢
    by_cases lt : passed < p.count
    · rw [decide_eq_true lt] at now ⊢
      rw [Nat.min_eq_left lt]
      refine .mk now ?_ ends steps lt
      rw [p.term_succ]
      exact stands.add steps (p.small_term le) p.small_step (p.term_succ _ ▸ p.small_term lt)
    · rw [decide_eq_false lt] at now ⊢
      rw [Nat.min_eq_right (by omega)]
      obtain rfl : passed = p.count := by omega
      exact .mk now stands ends steps le

variable {operation : Operation}

/-- What an operation on a range does not make anew it steps, or leaves as it is. -/
theorem effect (h : heap.Ranges id p passed) (suits : operation.Suits heap)
    (keeps : operation.self = id → operation.method ≠ .rangeInit) :
    (operation.effect heap).2.Ranges id p (min (passed + operation.stepsOf id) p.count) := by
  obtain ⟨iterator, found, -, -, -, stepped⟩ := h.stands
  unfold Operation.stepsOf
  by_cases move : operation.self = id ∧ operation.method = .move ∧ operation.arguments = []
  · obtain ⟨method, self, arguments, line⟩ := operation
    obtain ⟨rfl, rfl, rfl⟩ := move
    simp only [Operation.effect, Heap.withIterator, found]
    exact stepped
  · rw [if_neg move, Nat.add_zero, Nat.min_eq_left h.le]
    have changes := (operation.does_effect heap).changes
    obtain ⟨held, stands, ends, steps, le⟩ := h
    by_cases on : operation.self = id
    · have mem := suits _ (on ▸ held)
      have same : (operation.effect heap).2 = heap := by
        generalize (operation.effect heap).2 = after at changes
        cases changes with
        | same => rfl
        | initRange => exact absurd rfl (keeps on)
        | advance => exact absurd ⟨on, rfl, rfl⟩ move
        | _ => exact absurd mem (by simp [BuiltinClass.methods, Payload.kind, Iterator.kind])
      rw [same]
      exact .mk held stands ends steps le
    · exact .mk (payload?_of_changes changes (Ne.symm on) held) stands ends steps le

/-- **In a run a range goes on by the steps in it**, up to the end of the progression. -/
theorem undergoes {P : Operation → Heap → Prop} {operations : List Operation}
    (fits : ∀ operation heap, P operation heap →
      operation.Suits heap ∧ (operation.self = id → operation.method ≠ .rangeInit))
    (run : heap.Undergoes P operations heap') (h : heap.Ranges id p passed) :
    heap'.Ranges id p (min (passed + Operation.steps id operations) p.count) := by
  induction run generalizing passed with
  | done heap =>
    rw [Operation.steps, List.map_nil, List.sum_nil, Nat.add_zero, Nat.min_eq_left h.le]
    exact h
  | aside aside rest ih =>
    obtain ⟨held, stands, ends, steps, le⟩ := h
    exact ih (.mk (payload?_of_aside aside held) stands ends steps le)
  | @operation operation heap heap' operations fit rest ih =>
    obtain ⟨suits, keeps⟩ := fits _ _ fit
    have later := ih (h.effect suits keeps)
    rwa [show min (min (passed + operation.stepsOf id) p.count + Operation.steps id operations)
        p.count = min (passed + Operation.steps id (operation :: operations)) p.count by
      rw [Operation.steps, Operation.steps, List.map_cons, List.sum_cons]
      omega] at later

/-- A new range has passed nothing. -/
theorem start {first last step : Float} (begins : IsInteger first p.first)
    (ends : IsInteger last p.last) (steps : IsInteger step p.step) {cls : Class}
    (there : heap.class? id = some cls) (line : Nat) :
    Operation.effect ⟨.rangeInit, id, [.number first, .number last, .number step], line⟩ heap =
        (.ok (.inst id), heap.setPayload id (.iterator (.range first last step))) ∧
      (heap.setPayload id (.iterator (.range first last step))).Ranges id p 0 := by
  have nonzero : ¬ (step == 0) = true := steps.beq_zero_iff.not.2 p.nonzero
  constructor
  · simp only [Operation.effect, Heap.withBound, if_neg nonzero]
  · refine .mk (payload?_setPayload_self there _) ?_ ends steps (Nat.zero_le _)
    simpa [Progression.term] using begins

/-- What a range answers, and what becomes of it. -/
theorem answers {s : State} (h : s.heap.Ranges id p passed) (line : Nat) :
    (Operation.mk .hasItems id [] line).run s = .ok (.boolean (decide (passed < p.count))) s ∧
      (passed < p.count → ∃ value, value.IsInteger (p.term passed) ∧
        (Operation.mk .get id [] line).run s = .ok value s) ∧
      (passed = p.count → (Operation.mk .get id [] line).run s =
          .error (.error ⟨.builtin .exhausted, line⟩) s ∧
        (Operation.mk .move id [] line).run s = .ok .nil s) ∧
      ∃ t, (Operation.mk .move id [] line).run s = .ok .nil t ∧
        t.heap.Ranges id p (min (passed + 1) p.count) := by
  obtain ⟨iterator, found, items, current, exhausted, stepped⟩ := h.stands
  simp only [Operation.run_eq, Operation.effect, Heap.withIterator, found, items]
  refine ⟨rfl, ?_, ?_, _, rfl, stepped⟩
  · intro lt
    obtain ⟨value, given, integer⟩ := current lt
    simp only [given]
    exact ⟨value, integer, rfl⟩
  · intro all
    obtain ⟨nothing, stays⟩ := exhausted all
    have same := setPayload_held (iterator?_eq_some.1 found)
    simp only [nothing, stays, same]
    exact ⟨rfl, rfl⟩

end Ranges

end Heap

end Lox
