/-
# The moments of a run, and contracts for tasks

A `Moment` is a point of a run at which a task begins or a scope is opened.  `Moment.Next` leads
from the beginning of a task to the moments in its script, so the moments of a run are those that
are reached from its first one (`Moment.Reaches`).

A `Contract` says what holds when a task begins (`pre`), what then holds when it gives an answer
(`post`) and what if it is interrupted (`stop`).  `Script.Meets` is what there is to show for one
script, in which the contract stands for the tasks that the script calls.  If all scripts meet the
contract, then

* every task keeps its part of it (`Contract.Sound.ends`), and
* the tasks that begin in the course of a run find what they expect
  (`Contract.Sound.pre_of_reaches`).
-/
import Lox.Proofs.Eval.Script
import Mathlib.Logic.Relation

namespace Lox

/-! ## 1. Moments -/

/-- A point of a run. -/
inductive Moment where
  | begins (fuel : Nat) (task : Task) (state : State)
  /-- A scope is about to be made for a construct. -/
  | opens (origin : ScopeOrigin) (state : State)

/-- The state at a moment. -/
def Moment.state : Moment → State
  | .begins _ _ s | .opens _ s => s

/-- The moments in a script that is carried out from a state. -/
inductive Script.Passes (fuel : Nat) : {α : Type} → Script α → State → Moment → Prop where
  | opening {α : Type} {origin : ScopeOrigin} {enclosing : ScopeId} {next : ScopeId → Script α}
      {s : State} : Passes fuel (.act (.opening origin enclosing) next) s (.opens origin s)
  | act {α β : Type} {action : Act β} {next : β → Script α} {s s' : State} {answer : β}
      {m : Moment} (done : action.run s = .ok answer s')
      (later : Passes fuel (next answer) s' m) : Passes fuel (.act action next) s m
  | begins {α : Type} {frame : Frame} {task : Task} {next : task.Answer → Script α}
      {s inner : State} (entered : frame.enter s = .ok inner) :
      Passes fuel (.call frame task next) s (.begins fuel task inner)
  | call {α : Type} {frame : Frame} {task : Task} {next : task.Answer → Script α} {s s' : State}
      {answer : task.Answer} {m : Moment}
      (done : frame.around (task.run fuel) s = .ok answer s')
      (later : Passes fuel (next answer) s' m) : Passes fuel (.call frame task next) s m

namespace Moment

/-- A moment in the script of the task that begins. -/
inductive Next : Moment → Moment → Prop where
  | mk {fuel : Nat} {task : Task} {s : State} {m : Moment}
      (passes : task.script.Passes fuel s m) : Next (.begins (fuel + 1) task s) m

/-- A moment in what follows from the task that begins. -/
abbrev Reaches : Moment → Moment → Prop := Relation.ReflTransGen Next

end Moment

theorem Task.run_zero (task : Task) : task.run 0 = throw .outOfFuel := by
  cases task <;>
    simp only [run, Eval.eval, Eval.evalAll, Eval.evalOptional, Eval.call, Eval.apply,
      Eval.applyMethod, Eval.applyClosure, Eval.invoke, Eval.exec, Eval.execAll, Eval.whileLoop,
      Eval.forEach, Eval.cursorHasItems, Eval.cursorCurrent, Eval.cursorAdvance] <;> rfl

/-! ## 2. How evaluations end -/

namespace Eval

variable {α β : Type} {x : Eval α} {f : α → Eval β} {s s' : State}

/-- A look at the state changes nothing. -/
theorem look_bind (f : State → Eval β) (s : State) : (MonadState.get >>= f) s = f s s := rfl

theorem bind_of_ok {v : α} (h : x s = .ok v s') (f : α → Eval β) : (x >>= f) s = f v s' := by
  change EStateM.bind x f s = _
  unfold EStateM.bind
  rw [h]

theorem bind_of_error {interrupt : Interrupt} (h : x s = .error interrupt s') (f : α → Eval β) :
    (x >>= f) s = .error interrupt s' := by
  change EStateM.bind x f s = _
  unfold EStateM.bind
  rw [h]

/-- What gives an answer gave one halfway. -/
theorem bind_eq_ok {w : β} {s'' : State} (h : (x >>= f) s = .ok w s'') :
    ∃ v s', x s = .ok v s' ∧ f v s' = .ok w s'' := by
  cases hx : x s with
  | ok v s' => exact ⟨v, s', rfl, (bind_of_ok hx f).symm.trans h⟩
  | error interrupt s' => cases (bind_of_error hx f).symm.trans h

end Eval

/-- An evaluation ends with an answer and a state for which `post` holds, or with an interrupt and
a state for which `stop` holds. -/
def Ends {α : Type} (result : EStateM.Result Interrupt State α) (post : α → State → Prop)
    (stop : Interrupt → State → Prop) : Prop :=
  match result with
  | .ok value s => post value s
  | .error interrupt s => stop interrupt s

theorem Ends.imp {α : Type} {result : EStateM.Result Interrupt State α}
    {post post' : α → State → Prop} {stop stop' : Interrupt → State → Prop}
    (h : Ends result post stop) (hpost : ∀ v s, post v s → post' v s)
    (hstop : ∀ i s, stop i s → stop' i s) : Ends result post' stop' := by
  cases result with
  | ok value s => exact hpost value s h
  | error interrupt s => exact hstop interrupt s h

theorem Ends.bind {α β : Type} {x : Eval α} {f : α → Eval β} {s : State}
    {post : β → State → Prop} {stop : Interrupt → State → Prop}
    (h : Ends (x s) (fun v s' => Ends (f v s') post stop) stop) : Ends ((x >>= f) s) post stop := by
  cases hx : x s with
  | ok value s' =>
    rw [hx] at h
    rwa [Eval.bind_of_ok hx]
  | error interrupt s' =>
    rw [hx] at h
    rwa [Eval.bind_of_error hx]

theorem Frame.around_eq {α : Type} (frame : Frame) (x : Eval α) (s : State) :
    frame.around x s =
      match frame.enter s with
      | .error interrupt => .error interrupt s
      | .ok inner =>
        match x inner with
        | .ok v s' => .ok v (frame.leave s s')
        | .error interrupt s' => .error interrupt (frame.leave s s') := by
  cases frame with
  | same => simp only [around, enter, leave]; cases x s <;> rfl
  | scope id => rfl
  | call line =>
    simp only [around, enter, leave, Eval.nested]
    split <;> rfl

/-! ## 3. Contracts -/

/-- What tasks may expect and have to keep to.  `Aux` is what the conditions before and after a
task share besides the states. -/
structure Contract (Aux : Type) where
  pre : Task → Aux → State → Prop
  post : (task : Task) → Aux → State → task.Answer → State → Prop
  stop : State → Interrupt → State → Prop

section Contract

variable {Aux : Type} (c : Contract Aux) (history : Moment → Prop) (fuel : Nat)

/-- What there is to show for a script that is carried out from a state, if all its moments are in
a history: tasks may begin, and the rest of the script is right for each answer they may give. -/
def Script.Meets {α : Type} (stop : Interrupt → State → Prop) :
    Script α → (α → State → Prop) → State → Prop
  | .done value, post, s => post value s
  | .act (.plain action) next, post, s =>
    Ends (action s) (fun v s' => (next v).Meets stop post s') stop
  | .act (.opening origin enclosing) next, post, s =>
    history (.opens origin s) →
      Ends (Eval.newScope enclosing s) (fun v s' => (next v).Meets stop post s') stop
  | .call frame task next, post, s =>
    match frame.enter s with
    | .error interrupt => stop interrupt s
    | .ok inner => history (.begins fuel task inner) → ∃ aux, c.pre task aux inner ∧
        (∀ v s', task.run fuel inner = .ok v s' → c.post task aux inner v s' →
          (next v).Meets stop post (frame.leave s s')) ∧
        (∀ i s', c.stop inner i s' → stop i (frame.leave s s'))

variable {c history fuel}

theorem Script.meets_bind {α β : Type} {stop : Interrupt → State → Prop} {f : α → Script β}
    {post : β → State → Prop} (script : Script α) (s : State)
    (h : script.Meets c history fuel stop (fun v s' => (f v).Meets c history fuel stop post s') s) :
    (script >>= f).Meets c history fuel stop post s := by
  induction script generalizing s with
  | done value => exact h
  | act action next ih =>
    cases action with
    | plain action => exact Ends.imp h (fun v s' => ih v s') (fun _ _ => id)
    | opening origin enclosing =>
      exact fun opened => Ends.imp (h opened) (fun v s' => ih v s') (fun _ _ => id)
  | call frame task next ih =>
    change Script.Meets c history fuel stop (.call frame task fun v => next v >>= f) post s
    simp only [Meets] at h ⊢
    cases hs : frame.enter s with
    | error interrupt => rwa [hs] at h
    | ok inner =>
      rw [hs] at h
      intro begun
      obtain ⟨aux, hpre, hpost, hstop⟩ := h begun
      exact ⟨aux, hpre, fun v s' hrun hv => ih v _ (hpost v s' hrun hv), hstop⟩

theorem Script.Meets.imp {α : Type} {stop : Interrupt → State → Prop}
    {post post' : α → State → Prop}
    {script : Script α} {s : State} (h : script.Meets c history fuel stop post s)
    (hpost : ∀ v s', post v s' → post' v s') : script.Meets c history fuel stop post' s := by
  induction script generalizing s with
  | done value => exact hpost value s h
  | act action next ih =>
    cases action with
    | plain action => exact Ends.imp h (fun v s' hv => ih v hv) (fun _ _ hi => hi)
    | opening origin enclosing =>
      exact fun opened => Ends.imp (h opened) (fun v s' hv => ih v hv) (fun _ _ hi => hi)
  | call frame task next ih =>
    simp only [Meets] at h ⊢
    cases hs : frame.enter s with
    | error interrupt => rwa [hs] at h
    | ok inner =>
      rw [hs] at h
      intro begun
      obtain ⟨aux, hpre, hnext, hstop⟩ := h begun
      exact ⟨aux, hpre, fun v s' hrun hv => ih v (hnext v s' hrun hv), hstop⟩

theorem Script.Meets.ends {α : Type} {stop : Interrupt → State → Prop} {post : α → State → Prop}
    {script : Script α} {s : State} (h : script.Meets c history fuel stop post s)
    (passed : ∀ m, script.Passes fuel s m → history m)
    (keep : ∀ task aux s, history (.begins fuel task s) → c.pre task aux s →
      Ends (task.run fuel s) (c.post task aux s) (c.stop s)) :
    Ends (script.run (Task.run fuel) s) post stop := by
  induction script generalizing s with
  | done value => exact h
  | act action next ih =>
    have step :
      Ends (action.run s) (fun v s' => (next v).Meets c history fuel stop post s') stop := by
      cases action with
      | plain action => exact h
      | opening origin enclosing => exact h (passed _ .opening)
    refine Ends.bind ?_
    cases hx : action.run s with
    | error interrupt s' => rwa [hx] at step
    | ok v s' =>
      rw [hx] at step
      exact ih v step fun m hm => passed m (.act hx hm)
  | call frame task next ih =>
    refine Ends.bind ?_
    simp only [Meets] at h
    rw [Frame.around_eq]
    cases hs : frame.enter s with
    | error interrupt => rwa [hs] at h
    | ok inner =>
      rw [hs] at h
      have begun := passed _ (.begins hs)
      obtain ⟨aux, hpre, hpost, hstop⟩ := h begun
      have kept := keep task aux inner begun hpre
      dsimp only
      cases hrun : task.run fuel inner with
      | error interrupt s' =>
        rw [hrun] at kept
        exact hstop interrupt s' kept
      | ok v s' =>
        rw [hrun] at kept
        refine ih v (hpost v s' hrun kept) fun m hm => passed m (.call ?_ hm)
        simp only [Frame.around_eq, hs, hrun]

/-- The tasks that a script begins find what they expect. -/
theorem Script.Meets.pre {α : Type} {stop : Interrupt → State → Prop} {post : α → State → Prop}
    {script : Script α} {s : State} (h : script.Meets c history fuel stop post s)
    (keep : ∀ task aux s, history (.begins fuel task s) → c.pre task aux s →
      Ends (task.run fuel s) (c.post task aux s) (c.stop s))
    {m : Moment} (passes : script.Passes fuel s m)
    (passed : ∀ m, script.Passes fuel s m → history m)
    {fuel' : Nat} {task : Task} {inner : State} (hm : m = .begins fuel' task inner) :
    ∃ aux, c.pre task aux inner := by
  induction passes with
  | opening => cases hm
  | @act β action next s s' answer m done later ih =>
    have step :
      Ends (action.run s) (fun v s' => (next v).Meets c history fuel stop post s') stop := by
      cases action with
      | plain action => exact h
      | opening origin enclosing => exact h (passed _ .opening)
    rw [done] at step
    exact ih step (fun m hm => passed m (.act done hm)) hm
  | @begins frame task next s inner entered =>
    cases hm
    simp only [Meets, entered] at h
    obtain ⟨aux, hpre, -⟩ := h (passed _ (.begins entered))
    exact ⟨aux, hpre⟩
  | @call frame task next s s' answer m done later ih =>
    have answered := done
    rw [Frame.around_eq] at answered
    simp only [Meets] at h
    cases hs : frame.enter s with
    | error interrupt =>
      rw [hs] at answered
      cases answered
    | ok inner =>
      rw [hs] at h answered
      dsimp only at answered
      have begun := passed _ (.begins hs)
      obtain ⟨aux, hpre, hpost, -⟩ := h begun
      have kept := keep task aux inner begun hpre
      cases hrun : task.run fuel inner with
      | error interrupt s₁ =>
        rw [hrun] at answered
        cases answered
      | ok v s₁ =>
        rw [hrun] at answered kept
        cases answered
        exact ih (hpost _ s₁ hrun kept) (fun m hm => passed m (.call done hm)) hm

/-- What is to be shown of a contract: every script meets it, in a history that goes on as scripts
do, and it allows for want of fuel. -/
structure Contract.Sound (c : Contract Aux) (history : Moment → Prop) : Prop where
  closed : ∀ m m', history m → m.Next m' → history m'
  meets : ∀ fuel task aux s, history (.begins (fuel + 1) task s) → c.pre task aux s →
    task.script.Meets c history fuel (c.stop s) (c.post task aux s) s
  empty : ∀ task aux s, c.pre task aux s → c.stop s .outOfFuel s

/-- **Every task keeps to a sound contract.** -/
theorem Contract.Sound.ends (sound : c.Sound history) :
    ∀ fuel task aux s, history (.begins fuel task s) → c.pre task aux s →
      Ends (task.run fuel s) (c.post task aux s) (c.stop s) := by
  intro fuel
  induction fuel with
  | zero =>
    intro task aux s _ hpre
    rw [Task.run_zero]
    exact sound.empty task aux s hpre
  | succ fuel ih =>
    intro task aux s begun hpre
    rw [Task.run_succ]
    exact (sound.meets fuel task aux s begun hpre).ends
      (fun m hm => sound.closed _ m begun (.mk hm)) ih

/-- **Every task that begins in the course of a run finds what it expects.** -/
theorem Contract.Sound.pre_of_reaches (sound : c.Sound history) {m m' : Moment}
    (reaches : m.Reaches m') (begun : history m)
    (hpre : ∀ fuel task s, m = .begins fuel task s → ∃ aux, c.pre task aux s) :
    history m' ∧ ∀ fuel task s, m' = .begins fuel task s → ∃ aux, c.pre task aux s := by
  induction reaches with
  | refl => exact ⟨begun, hpre⟩
  | tail _ next ih =>
    obtain ⟨hist, pre⟩ := ih
    refine ⟨sound.closed _ _ hist next, ?_⟩
    intro fuel task s hm
    cases next with
    | @mk fuel₀ task₀ s₀ _ passes =>
      obtain ⟨aux, hpre₀⟩ := pre (fuel₀ + 1) task₀ s₀ rfl
      exact (sound.meets fuel₀ task₀ aux s₀ hist hpre₀).pre (sound.ends fuel₀) passes
        (fun m hm => sound.closed _ m hist (.mk hm)) hm

end Contract

end Lox
