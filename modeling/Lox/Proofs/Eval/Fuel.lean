/-
# More fuel, the same results

An evaluation that runs out of fuel says nothing.  `Approximates` compares two evaluations up to
that: the second does what the first one does, if the first has enough fuel.

* `Task.approximates_run`: with more fuel a task does the same.
* `Concludes`: what an evaluation does given enough fuel, which is one result at most
  (`Concludes.unique`).
-/
import Lox.Proofs.Eval.Moment

namespace Lox

namespace Eval

variable {α β : Type}

/-- An evaluation ended for want of fuel. -/
def Starves (result : EStateM.Result Interrupt State α) : Prop := ∃ s, result = .error .outOfFuel s

theorem not_starves_ok (v : α) (s : State) : ¬ Starves (.ok v s) := by
  rintro ⟨s', h⟩
  cases h

/-- From a state the second evaluation does what the first one does, unless that runs out of
fuel. -/
def Approximates (x y : Eval α) (s : State) : Prop := Starves (x s) ∨ y s = x s

namespace Approximates

variable {x y z : Eval α} {f g : α → Eval β} {s : State}

theorem of_eq (h : x s = y s) : Approximates x y s := Or.inr h.symm

theorem refl (x : Eval α) (s : State) : Approximates x x s := Or.inr rfl

theorem outOfFuel : Approximates (throw .outOfFuel) y s := Or.inl ⟨s, rfl⟩

theorem trans (h : Approximates x y s) (h' : Approximates y z s) : Approximates x z s := by
  rcases h with h | h
  · exact Or.inl h
  · rcases h' with h' | h'
    · exact Or.inl (h ▸ h')
    · exact Or.inr (h'.trans h)

/-- A result that is not want of fuel carries over. -/
theorem eq_of (h : Approximates x y s) {result : EStateM.Result Interrupt State α}
    (hx : x s = result) (enough : ¬ Starves result) : y s = result := by
  rcases h with h | h
  · exact absurd (hx ▸ h) enough
  · exact h.trans hx

theorem eq_ok (h : Approximates x y s) {v : α} {s' : State} (hx : x s = .ok v s') :
    y s = .ok v s' :=
  h.eq_of hx (not_starves_ok v s')

/-- One evaluation and then another. -/
theorem bind (h : Approximates x y s)
    (hf : ∀ v s', x s = .ok v s' → y s = .ok v s' → Approximates (f v) (g v) s') :
    Approximates (x >>= f) (y >>= g) s := by
  rcases h with ⟨s', hx⟩ | hy
  · exact Or.inl ⟨s', bind_of_error hx f⟩
  · cases hx : x s with
    | error interrupt s' =>
      exact Or.inr ((bind_of_error (hy.trans hx) g).trans (bind_of_error hx f).symm)
    | ok v s' =>
      have rest := hf v s' hx (hy.trans hx)
      unfold Approximates
      rwa [bind_of_ok hx, bind_of_ok (hy.trans hx)]

theorem around (frame : Frame)
    (h : ∀ inner, frame.enter s = .ok inner → Approximates x y inner) :
    Approximates (frame.around x) (frame.around y) s := by
  unfold Approximates
  rw [Frame.around_eq, Frame.around_eq]
  cases entered : frame.enter s with
  | error interrupt => exact Or.inr rfl
  | ok inner =>
    dsimp only
    rcases h inner entered with ⟨s', hx⟩ | hy
    · rw [hx]
      exact Or.inl ⟨_, rfl⟩
    · rw [hy]
      exact Or.inr rfl

theorem within (scope : ScopeId) (h : Approximates x y { s with scope := scope }) :
    Approximates (Eval.within scope x) (Eval.within scope y) s :=
  around (.scope scope) fun inner entered => by
    cases entered
    exact h

end Approximates

end Eval

/-! ## 1. Tasks -/

open Eval

/-- Scripts do the same if the tasks that they call do. -/
theorem Script.approximates_run {α : Type} {rec rec' : (task : Task) → Eval task.Answer}
    (h : ∀ task s, Approximates (rec task) (rec' task) s) (script : Script α) (s : State) :
    Approximates (script.run rec) (script.run rec') s := by
  induction script generalizing s with
  | done value => exact .refl _ _
  | act action next ih => exact .bind (.refl _ _) fun v s' _ _ => ih v s'
  | call frame task next ih =>
    exact .bind (.around frame fun inner _ => h task inner) fun v s' _ _ => ih v s'

/-- **With more fuel a task does the same.** -/
theorem Task.approximates_run {fuel fuel' : Nat} (le : fuel ≤ fuel') (task : Task) (s : State) :
    Approximates (task.run fuel) (task.run fuel') s := by
  induction fuel generalizing fuel' task s with
  | zero =>
    rw [Task.run_zero]
    exact .outOfFuel
  | succ fuel ih =>
    obtain ⟨fuel', rfl⟩ : ∃ more, fuel' = more + 1 := ⟨fuel' - 1, by omega⟩
    rw [Task.run_succ, Task.run_succ]
    exact task.script.approximates_run (fun task s => ih (by omega) task s) s

/-! ## 2. Conclusions -/

namespace Eval

variable {α : Type} {x : Nat → Eval α} {s : State}
    {result result' : EStateM.Result Interrupt State α}

/-- What an evaluation does in a state, given enough fuel. -/
def Concludes (x : Nat → Eval α) (s : State) (result : EStateM.Result Interrupt State α) : Prop :=
  ¬ Starves result ∧ ∃ fuel, x fuel s = result

/-- An evaluation does one thing only, whatever the fuel. -/
theorem Concludes.unique
    (mono : ∀ fuel fuel', fuel ≤ fuel' → Approximates (x fuel) (x fuel') s)
    (h : Concludes x s result) (h' : Concludes x s result') : result = result' := by
  obtain ⟨enough, fuel, hx⟩ := h
  obtain ⟨enough', fuel', hx'⟩ := h'
  rcases Nat.le_total fuel fuel' with le | le
  · exact ((mono fuel fuel' le).eq_of hx enough).symm.trans hx'
  · exact hx.symm.trans ((mono fuel' fuel le).eq_of hx' enough')

/-- Two evaluations conclude the same if each approximates the other with some other fuel. -/
theorem concludes_iff {y : Nat → Eval α} (more less : Nat → Nat)
    (h : ∀ fuel, Approximates (x fuel) (y (more fuel)) s)
    (h' : ∀ fuel, Approximates (y fuel) (x (less fuel)) s) :
    Concludes x s result ↔ Concludes y s result := by
  constructor
  · rintro ⟨enough, fuel, hx⟩
    exact ⟨enough, more fuel, (h fuel).eq_of hx enough⟩
  · rintro ⟨enough, fuel, hy⟩
    exact ⟨enough, less fuel, (h' fuel).eq_of hy enough⟩

end Eval

end Lox
