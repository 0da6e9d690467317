/-
# Runs without a limit on calls

`Task.runFree` carries out a task however many calls are in progress, and `Task.nesting` says how
deep calls are nested in that.  These decide what the limit does (`Script.Steady.limits`): if the
calls are not nested too deep, then it makes no difference, and otherwise the evaluation ends with a
stack overflow.  Without a limit none does (`Script.Fitting.free_not_overflow`).
-/
import Lox.Proofs.Eval.Depth

namespace Lox

/-! ## 1. Without a limit -/

namespace Frame

/-- The state in which a task begins, however many calls are in progress. -/
def enterFree : Frame → State → State
  | same, s => s
  | scope id, s => { s with scope := id }
  | call _, s => { s with depth := s.depth + 1 }

/-- Does a task in a frame, however many calls are in progress. -/
def aroundFree {α : Type} (frame : Frame) (x : Eval α) : Eval α := fun s =>
  frame.leaveEnd s (x (frame.enterFree s))

theorem depth_enterFree (frame : Frame) (s : State) :
    (frame.enterFree s).depth = s.depth + frame.isCall.toNat := by
  cases frame <;> rfl

/-- The limit makes no difference where there is room for one more call. -/
theorem enter_of_room {frame : Frame} {s : State} (room : s.depth + frame.isCall.toNat ≤ maxDepth) :
    frame.enter s = .ok (frame.enterFree s) := by
  cases frame with
  | same | scope id => rfl
  | call line => exact if_neg (Nat.not_le_of_lt room)

theorem enter_of_full {frame : Frame} {s : State} (le : s.depth ≤ maxDepth)
    (full : maxDepth < s.depth + frame.isCall.toNat) :
    ∃ line, frame.enter s = .error (overflow line) := by
  cases frame with
  | same | scope id => exact absurd le (Nat.not_le_of_lt full)
  | call line => exact ⟨line, if_pos (Nat.le_of_lt_succ full)⟩

end Frame

/-- Carries out a script, given how to carry out tasks, however many calls are in progress. -/
def Script.runFree {α : Type} (perform : (task : Task) → Eval task.Answer) : Script α → Eval α
  | done value => pure value
  | act action next => do (next (← action.run)).runFree perform
  | call frame task next => do (next (← frame.aroundFree (perform task))).runFree perform

/-- Carries out a task, however many calls are in progress. -/
def Task.runFree : (fuel : Nat) → (task : Task) → Eval task.Answer
  | 0, _ => Eval.outOfFuel
  | fuel + 1, task => task.script.runFree (runFree fuel)

/-- How deep calls are nested behind an evaluation: not at all if it is interrupted. -/
def nestingBehind {α : Type} (result : EStateM.Result Interrupt State α)
    (nesting : α → State → Nat) : Nat :=
  match result with
  | .ok v s => nesting v s
  | .error _ _ => 0

/-- How deep calls are nested in a script, given how deep they are in the tasks that it calls. -/
def Script.nesting {α : Type} (perform : (task : Task) → Eval task.Answer)
    (tasks : Task → State → Nat) : Script α → State → Nat
  | done _, _ => 0
  | act action next, s =>
    nestingBehind (action.run s) fun v s' => (next v).nesting perform tasks s'
  | call frame task next, s =>
    max (frame.isCall.toNat + tasks task (frame.enterFree s))
      (nestingBehind (frame.aroundFree (perform task) s) fun v s' =>
        (next v).nesting perform tasks s')

/-- How deep calls are nested in a task. -/
def Task.nesting : (fuel : Nat) → Task → State → Nat
  | 0, _, _ => 0
  | fuel + 1, task, s => task.script.nesting (runFree fuel) (nesting fuel) s

/-! ## 2. What the limit does -/

/-- If calls nested so deep fit in, then two evaluations do the same from a state, and otherwise the
first one ends with a stack overflow. -/
def Eval.Limits {α : Type} (x y : Eval α) (nesting : Nat) (s : State) : Prop :=
  (s.depth + nesting ≤ maxDepth ∧ x s = y s) ∨
    (maxDepth < s.depth + nesting ∧ ∃ line s', x s = .error (overflow line) s')

namespace Eval.Limits

variable {α β : Type} {x y : Eval α} {nesting : Nat} {s : State}

theorem refl (x : Eval α) (le : s.depth ≤ maxDepth) : Limits x x 0 s := .inl ⟨le, rfl⟩

/-- One evaluation and then another. -/
theorem bind (h : Limits x y nesting s) {f g : α → Eval β} {rest : α → State → Nat}
    (hf : ∀ v s', y s = .ok v s' → x s = .ok v s' → Limits (f v) (g v) (rest v s') s')
    (depth : ∀ v s', x s = .ok v s' → s'.depth = s.depth) :
    Limits (x >>= f) (y >>= g) (max nesting (nestingBehind (y s) rest)) s := by
  rcases h with ⟨le, same⟩ | ⟨lt, line, s', failed⟩
  · cases hy : y s with
    | error interrupt s' =>
      refine .inl ⟨?_, ?_⟩
      · rwa [nestingBehind, Nat.max_zero]
      · rw [bind_of_error hy, bind_of_error (same.trans hy)]
    | ok v s' =>
      have hx := same.trans hy
      have later := hf v s' hy hx
      unfold Limits at later ⊢
      rw [depth v s' hx] at later
      rw [bind_of_ok hy, bind_of_ok hx, nestingBehind]
      exact later.imp (fun ⟨le', same'⟩ => ⟨by omega, same'⟩) fun ⟨lt, failed⟩ => ⟨by omega, failed⟩
  · exact .inr ⟨by omega, line, s', bind_of_error failed f⟩

theorem around (frame : Frame) (le : s.depth ≤ maxDepth)
    (h : (frame.enterFree s).depth ≤ maxDepth → Limits x y nesting (frame.enterFree s)) :
    Limits (frame.around x) (frame.aroundFree y) (frame.isCall.toNat + nesting) s := by
  unfold Limits at h ⊢
  rw [← Nat.add_assoc, ← frame.depth_enterFree]
  rcases Nat.lt_or_ge maxDepth (s.depth + frame.isCall.toNat) with full | room
  · obtain ⟨line, refused⟩ := Frame.enter_of_full le full
    refine .inr ⟨?_, line, s, Frame.around_of_error refused x⟩
    rw [frame.depth_enterFree]
    exact Nat.lt_of_lt_of_le full (Nat.le_add_right _ _)
  · rw [Frame.around_of_ok (Frame.enter_of_room room)]
    rcases h (frame.depth_enterFree s ▸ room) with ⟨le', same⟩ | ⟨lt, line, s', failed⟩
    · exact .inl ⟨le', congrArg (frame.leaveEnd s) same⟩
    · exact .inr ⟨lt, line, _, congrArg (frame.leaveEnd s) failed⟩

end Eval.Limits

open Eval

theorem Script.Steady.limits {α : Type} {script : Script α} (steady : script.Steady)
    {rec free : (task : Task) → Eval task.Answer} {tasks : Task → State → Nat}
    (keeps : ∀ task, Keeps (rec task))
    (h : ∀ task s, s.depth ≤ maxDepth → Limits (rec task) (free task) (tasks task s) s) {s : State}
    (le : s.depth ≤ maxDepth) :
    Limits (script.run rec) (script.runFree free) (script.nesting free tasks s) s := by
  induction script generalizing s with
  | done value => exact .refl _ le
  | act action next ih =>
    have bound := (Limits.refl action.run le).bind
      (fun v s' done _ => ih v (steady.2 v) (steady.1.depth_eq done ▸ le))
      fun v s' done => steady.1.depth_eq done
    rw [Nat.zero_max] at bound
    exact bound
  | call frame task next ih =>
    have kept := frame.keeps_around (keeps task)
    exact (Limits.around frame le fun le => h task _ le).bind
      (fun v s' _ done => ih v (steady v) (kept.depth_eq done ▸ le))
      fun v s' done => kept.depth_eq done

/-- **What the limit on calls does to a task.** -/
theorem Task.limits (fuel : Nat) (task : Task) {s : State} (le : s.depth ≤ maxDepth) :
    Limits (task.run fuel) (task.runFree fuel) (task.nesting fuel s) s := by
  induction fuel generalizing task s with
  | zero =>
    rw [run_zero]
    exact .refl _ le
  | succ fuel ih =>
    rw [run_succ]
    exact (steady_script task).limits (keeps_run fuel) (fun task s le => ih task le) le

/-- Without a limit, a script that fails for another reason than its acts have calls a task that
fails for this reason. -/
theorem Script.Fitting.failed_free {α : Type} {script : Script α} {calls : Bool}
    {free : (task : Task) → Eval task.Answer} {s s' : State} {interrupt : Interrupt}
    (h : script.Fitting calls) (failed : script.runFree free s = .error interrupt s')
    (other : ¬ interrupt.Plain) :
    ∃ task inner t, task.Fits ∧ free task inner = .error interrupt t := by
  induction script generalizing s with
  | done value => cases failed
  | act action next ih =>
    change (action.run >>= _) s = _ at failed
    have rest := h.act
    cases hs : action.run s with
    | error interrupt' t =>
      cases (bind_of_error hs _).symm.trans failed
      exact absurd (rest.1 s _ _ hs) other
    | ok v t => exact ih v (rest.2 v) ((bind_of_ok hs _).symm.trans failed)
  | call frame task next ih =>
    change (frame.aroundFree (free task) >>= _) s = _ at failed
    cases ran : free task (frame.enterFree s) with
    | error interrupt' t =>
      have around : frame.aroundFree (free task) s = .error interrupt' (frame.leave s t) :=
        congrArg (frame.leaveEnd s) ran
      cases (bind_of_error around _).symm.trans failed
      exact ⟨task, _, t, h.1, ran⟩
    | ok v t =>
      have around : frame.aroundFree (free task) s = .ok v (frame.leave s t) :=
        congrArg (frame.leaveEnd s) ran
      exact ih v (h.2.2 v) ((bind_of_ok around _).symm.trans failed)

/-- **Without a limit no task ends with a stack overflow.** -/
theorem Task.free_not_overflow {fuel : Nat} {task : Task} (fits : task.Fits) (line : Nat)
    (s s' : State) : task.runFree fuel s ≠ .error (Lox.overflow line) s' := by
  induction fuel generalizing task s s' with
  | zero =>
    intro failed
    cases failed
  | succ fuel ih =>
    intro failed
    obtain ⟨other, inner, t, fits', failed'⟩ :=
      (fitting_script fits).failed_free failed (not_plain_overflow line)
    exact ih fits' inner t failed'

theorem Script.Fitting.free_not_overflow {α : Type} {script : Script α} {calls : Bool}
    (h : script.Fitting calls) (fuel line : Nat) (s s' : State) :
    script.runFree (Task.runFree fuel) s ≠ .error (overflow line) s' := by
  intro failed
  obtain ⟨task, inner, t, fits, failed'⟩ := h.failed_free failed (not_plain_overflow line)
  exact Task.free_not_overflow fits line inner t failed'

end Lox
