/-
# What becomes of a state until the end of a run

A contract relates the beginning of a task to its end.  A `Regime` also says what becomes of the
states in between: whatever state a task of a run begins in, the state at the end of the run has
come after it in the way that the regime prescribes (`Regime.leads`).

That is a matter of the scripts.  Between two calls of a script the state may pass through anything,
but from the last call, or the beginning, to the next call, or the end, it has to be led as
prescribed; `Script.Obeys` says so of a script and keeps the state of the last call for that.
`Regime.Sound.obeyed` follows the tasks of a run to their ends, and `Regime.Sound.run` the
statements of a program.
-/
import Lox.Proofs.Eval.Opening

namespace Lox

/-! ## 1. Regimes -/

/-- What tasks find when they begin and give in return, and how the states of a run follow each
other. -/
structure Regime where
  /-- From a state to a later one. -/
  leads : State → State → Prop
  pre : (fuel : Nat) → Task → State → Prop
  /-- What holds of an answer in the state behind the task. -/
  gives : (task : Task) → task.Answer → State → Prop

section Regime

variable (r : Regime) (history : Moment → Prop) (fuel : Nat)

/-- What there is to show for a script that is carried out from a state, if all its moments are in a
history.  `last` is the state behind the last call. -/
def Script.Obeys {α : Type} (last : State) : Script α → (α → State → Prop) → State → Prop
  | .done value, good, s => r.leads last s ∧ good value s
  | .act (.plain action) next, good, s =>
    Ends (action s) (fun v s' => (next v).Obeys last good s') fun _ s' => r.leads last s'
  | .act (.opening origin enclosing) next, good, s =>
    history (.opens origin s) →
      Ends (Eval.newScope enclosing s) (fun v s' => (next v).Obeys last good s') fun _ s' =>
        r.leads last s'
  | .call frame task next, good, s =>
    r.leads last s ∧
      ∀ inner, frame.enter s = .ok inner → history (.begins fuel task inner) →
        r.pre fuel task inner ∧
          ∀ v s', task.run fuel inner = .ok v s' → r.leads s (frame.leave s s') →
            r.gives task v s' → (next v).Obeys (frame.leave s s') good (frame.leave s s')

/-- What is to be shown of a regime. -/
structure Regime.Sound : Prop where
  closed : ∀ m m', history m → m.Next m' → history m'
  trans : ∀ s s' s'', r.leads s s' → r.leads s' s'' → r.leads s s''
  here : ∀ fuel task s, r.pre fuel task s → r.leads s s
  /-- A state that has been led to is one to go on from. -/
  stays : ∀ s s', r.leads s s' → r.leads s' s'
  /-- Frames are left in good order. -/
  leave : ∀ (frame : Frame) s inner s', r.leads s s → frame.enter s = .ok inner →
    r.leads inner s' → r.leads s (frame.leave s s') ∧ r.leads s' (frame.leave s s')
  obeys : ∀ fuel task s, history (.begins (fuel + 1) task s) → r.pre (fuel + 1) task s →
    task.script.Obeys r history fuel s (r.gives task) s

variable {r history fuel}

/-- A state leads to an end, whichever that is, and a good answer is one of the ends. -/
abbrev Regime.EndsWell {α : Type} (r : Regime) (s : State)
    (result : EStateM.Result Interrupt State α) (good : α → State → Prop) : Prop :=
  Ends result (fun v s' => r.leads s s' ∧ good v s') fun _ s' => r.leads s s'

theorem Regime.EndsWell.leads_endState {α : Type} {s : State}
    {result : EStateM.Result Interrupt State α} {good : α → State → Prop}
    (h : r.EndsWell s result good) : r.leads s (endState result) :=
  Ends.holds_endState (Ends.imp h (fun _ _ h => h.1) fun _ _ h => h)

/-- The tasks that begin at some moments find what they expect, and the states in which they begin
lead to an end. -/
abbrev Regime.Lasts (r : Regime) (moments : Moment → Prop) (finish : State) : Prop :=
  ∀ fuel task s, moments (.begins fuel task s) → r.pre fuel task s ∧ r.leads s finish

/-- The states in which these tasks end lead to it, too. -/
abbrev Regime.Settles (r : Regime) (moments : Moment → Prop) (finish : State) : Prop :=
  ∀ fuel task s, moments (.begins fuel task s) →
    (r.pre fuel task s ∧ r.leads s finish) ∧ r.leads (endState (task.run fuel s)) finish

/-! ## 2. Scripts -/

/-- More may lie behind a script than the last call in it. -/
theorem Script.Obeys.since (trans : ∀ s s' s'', r.leads s s' → r.leads s' s'' → r.leads s s'')
    {α : Type} {script : Script α} {good : α → State → Prop} {first last s : State}
    (h : script.Obeys r history fuel last good s) (leads : r.leads first last) :
    script.Obeys r history fuel first good s := by
  induction script generalizing s with
  | done value => exact ⟨trans _ _ _ leads h.1, h.2⟩
  | act action next ih =>
    cases action with
    | plain action => exact Ends.imp h (fun v s' hv => ih v hv) fun _ _ hi => trans _ _ _ leads hi
    | opening origin enclosing =>
      exact fun opened => Ends.imp (h opened) (fun v s' hv => ih v hv) fun _ _ hi =>
        trans _ _ _ leads hi
  | call frame task next ih => exact ⟨trans _ _ _ leads h.1, h.2⟩

theorem Script.obeys_bind (trans : ∀ s s' s'', r.leads s s' → r.leads s' s'' → r.leads s s'')
    {α β : Type} {f : α → Script β} {good : β → State → Prop} {last : State} (script : Script α)
    (s : State)
    (h : script.Obeys r history fuel last (fun v s' => (f v).Obeys r history fuel s' good s') s) :
    (script >>= f).Obeys r history fuel last good s := by
  induction script generalizing last s with
  | done value => exact h.2.since trans h.1
  | act action next ih =>
    cases action with
    | plain action => exact Ends.imp h (fun v s' => ih v s') fun _ _ => id
    | opening origin enclosing =>
      exact fun opened => Ends.imp (h opened) (fun v s' => ih v s') fun _ _ => id
  | call frame task next ih =>
    refine ⟨h.1, fun inner entered begun => ?_⟩
    obtain ⟨expected, continues⟩ := h.2 inner entered begun
    exact ⟨expected, fun v s' ran leads gives => ih v _ (continues v s' ran leads gives)⟩

theorem Script.Obeys.imp {α : Type} {good good' : α → State → Prop} {script : Script α}
    {last s : State} (h : script.Obeys r history fuel last good s)
    (himp : ∀ v s', good v s' → good' v s') : script.Obeys r history fuel last good' s := by
  induction script generalizing last s with
  | done value => exact ⟨h.1, himp value s h.2⟩
  | act action next ih =>
    cases action with
    | plain action => exact Ends.imp h (fun v s' hv => ih v hv) fun _ _ hi => hi
    | opening origin enclosing =>
      exact fun opened => Ends.imp (h opened) (fun v s' hv => ih v hv) fun _ _ hi => hi
  | call frame task next ih =>
    refine ⟨h.1, fun inner entered begun => ?_⟩
    obtain ⟨expected, continues⟩ := h.2 inner entered begun
    exact ⟨expected, fun v s' ran leads gives => ih v (continues v s' ran leads gives)⟩

/-- An act of its own, and what is left of the script behind it. -/
theorem Script.settles_act {α β : Type} {action : Act β} {next : β → Script α} {good : α → State → Prop}
    {last s : State}
    (ih : ∀ v {last s : State}, (next v).Obeys r history fuel last good s →
      (∀ m, (next v).Passes fuel s m → history m) →
        r.EndsWell last ((next v).run (Task.run fuel) s) good ∧
          r.Settles ((next v).Leads fuel s) (endState ((next v).run (Task.run fuel) s)))
    (h : (Script.act action next).Obeys r history fuel last good s)
    (passed : ∀ m, (Script.act action next).Passes fuel s m → history m) :
    r.EndsWell last ((Script.act action next).run (Task.run fuel) s) good ∧
      r.Settles ((Script.act action next).Leads fuel s)
        (endState ((Script.act action next).run (Task.run fuel) s)) := by
  cases action with
  | plain action =>
    change r.EndsWell last ((action >>= _) s) good ∧
      r.Settles _ (endState ((action >>= _) s))
    simp only [Script.Obeys] at h
    cases hs : action s with
    | error interrupt s' =>
      rw [hs] at h
      rw [Eval.bind_of_error hs]
      refine ⟨h, fun fuel' task t leads => ?_⟩
      obtain ⟨_, _, done, -⟩ := Script.leads_plain leads
      cases hs.symm.trans done
    | ok v s' =>
      rw [hs] at h
      rw [Eval.bind_of_ok hs]
      obtain ⟨ends, lasts⟩ := ih v h fun m hm => passed m (.act hs hm)
      refine ⟨ends, fun fuel' task t leads => ?_⟩
      obtain ⟨_, _, done, later⟩ := Script.leads_plain leads
      cases hs.symm.trans done
      exact lasts fuel' task t later
  | opening origin enclosing =>
    have rest := h (passed _ .opening)
    obtain ⟨ends, lasts⟩ := ih _ rest fun m hm => passed m (.act rfl hm)
    refine ⟨ends, fun fuel' task t leads => ?_⟩
    rcases Script.leads_opening leads with here | ⟨_, _, done, later⟩
    · cases here
    · cases done
      exact lasts fuel' task t later

namespace Regime.Sound

variable (sound : r.Sound history)

include sound

/-- A call, the state that it leaves, and what is left of the script behind it. -/
theorem call {α : Type} {frame : Frame} {task : Task} {next : task.Answer → Script α}
    {good : α → State → Prop} {last s : State}
    (ih : ∀ v {last s : State}, (next v).Obeys r history fuel last good s →
      (∀ m, (next v).Passes fuel s m → history m) →
        r.EndsWell last ((next v).run (Task.run fuel) s) good ∧
          r.Settles ((next v).Leads fuel s) (endState ((next v).run (Task.run fuel) s)))
    (h : (Script.call frame task next).Obeys r history fuel last good s)
    (passed : ∀ m, (Script.call frame task next).Passes fuel s m → history m)
    (tasks : ∀ task s, history (.begins fuel task s) → r.pre fuel task s →
      r.EndsWell s (task.run fuel s) (r.gives task) ∧
      r.Settles (Moment.Reaches (.begins fuel task s)) (endState (task.run fuel s))) :
    r.EndsWell last ((Script.call frame task next).run (Task.run fuel) s) good ∧
      r.Settles ((Script.call frame task next).Leads fuel s)
        (endState ((Script.call frame task next).run (Task.run fuel) s)) := by
  obtain ⟨reached, continues⟩ := h
  have start := sound.stays _ _ reached
  change r.EndsWell last ((frame.around (task.run fuel) >>= _) s) good ∧
    r.Settles _ (endState ((frame.around (task.run fuel) >>= _) s))
  have around := frame.around_eq (task.run fuel) s
  cases entered : frame.enter s with
  | error interrupt =>
    rw [entered] at around
    rw [Eval.bind_of_error around]
    refine ⟨reached, fun fuel' task t leads => ?_⟩
    obtain ⟨_, done, -⟩ := Script.leads_call leads
    cases entered.symm.trans done
  | ok inner =>
    rw [entered] at around
    dsimp only at around
    have begun := passed _ (.begins entered)
    obtain ⟨expected, answered⟩ := continues inner entered begun
    obtain ⟨ends, lasts⟩ := tasks task inner begun expected
    cases ran : task.run fuel inner with
    | error interrupt s' =>
      rw [ran] at around ends lasts
      rw [Eval.bind_of_error around]
      obtain ⟨behind, left⟩ := sound.leave frame s inner s' start entered ends
      refine ⟨sound.trans _ _ _ reached behind, fun fuel' task' t leads => ?_⟩
      obtain ⟨_, done, inside | ⟨_, _, done', -⟩⟩ := Script.leads_call leads
      · cases entered.symm.trans done
        obtain ⟨⟨found, leads⟩, further⟩ := lasts fuel' task' t inside
        exact ⟨⟨found, sound.trans _ _ _ leads left⟩, sound.trans _ _ _ further left⟩
      · cases entered.symm.trans done
        cases ran.symm.trans done'
    | ok v s' =>
      rw [ran] at around ends lasts
      rw [Eval.bind_of_ok around]
      obtain ⟨behind, left⟩ := sound.leave frame s inner s' start entered ends.1
      obtain ⟨ends', lasts'⟩ := ih v (answered v s' ran behind ends.2)
        fun m hm => passed m (.call around hm)
      have further := sound.trans _ _ _ reached behind
      refine ⟨Ends.imp ends' (fun v t h => ⟨sound.trans _ _ _ further h.1, h.2⟩)
        fun _ t h => sound.trans _ _ _ further h, fun fuel' task' t leads => ?_⟩
      obtain ⟨_, done, inside | ⟨_, _, done', later⟩⟩ := Script.leads_call leads
      · cases entered.symm.trans done
        obtain ⟨⟨found, leads⟩, behind⟩ := lasts fuel' task' t inside
        have on := sound.trans _ _ _ left ends'.leads_endState
        exact ⟨⟨found, sound.trans _ _ _ leads on⟩, sound.trans _ _ _ behind on⟩
      · cases entered.symm.trans done
        cases ran.symm.trans done'
        exact lasts' fuel' task' t later

/-- A script that obeys ends well and lasts, if the tasks that it calls do. -/
theorem script {α : Type} {script : Script α} {good : α → State → Prop} {last s : State}
    (h : script.Obeys r history fuel last good s)
    (passed : ∀ m, script.Passes fuel s m → history m)
    (tasks : ∀ task s, history (.begins fuel task s) → r.pre fuel task s →
      r.EndsWell s (task.run fuel s) (r.gives task) ∧
      r.Settles (Moment.Reaches (.begins fuel task s)) (endState (task.run fuel s))) :
    r.EndsWell last (script.run (Task.run fuel) s) good ∧
      r.Settles (script.Leads fuel s) (endState (script.run (Task.run fuel) s)) := by
  induction script generalizing last s with
  | done value =>
    refine ⟨h, ?_⟩
    rintro fuel' task t ⟨first, passes, -⟩
    cases passes
  | act action next ih => exact Script.settles_act ih h passed
  | call frame task next ih => exact sound.call ih h passed tasks

/-! ## 3. Tasks and programs -/

/-- **Every task that begins in a history ends well, and lasts.** -/
theorem obeyed : ∀ fuel task s, history (.begins fuel task s) → r.pre fuel task s →
    r.EndsWell s (task.run fuel s) (r.gives task) ∧
      r.Settles (Moment.Reaches (.begins fuel task s)) (endState (task.run fuel s)) := by
  intro fuel
  induction fuel with
  | zero =>
    intro task s begun expected
    have here := sound.here 0 task s expected
    rw [Task.run_zero]
    refine ⟨here, fun fuel' task' t reaches => ?_⟩
    rcases Relation.ReflTransGen.cases_head reaches with same | ⟨_, next, -⟩
    · cases same
      rw [Task.run_zero]
      exact ⟨⟨expected, here⟩, here⟩
    · cases next
  | succ fuel ih =>
    intro task s begun expected
    rw [Task.run_succ]
    obtain ⟨ends, lasts⟩ := sound.script (sound.obeys fuel task s begun expected)
      (fun m hm => sound.closed _ m begun (.mk hm)) ih
    refine ⟨ends, fun fuel' task' t reaches => ?_⟩
    rcases Moment.begins_reaches reaches with same | leads
    · cases same
      rw [Task.run_succ]
      exact ⟨⟨expected, ends.leads_endState⟩, sound.stays _ _ ends.leads_endState⟩
    · exact lasts fuel' task' t leads

/-- **So does every program**, if its statements can begin wherever the regime leads to. -/
theorem run {program : List Stmt} {s : State} (start : r.leads s s)
    (passed : ∀ m, Moment.Begins fuel program s m → history m)
    (top : ∀ first t, r.leads s t → r.pre fuel (.exec first) t) :
    r.EndsWell s (Eval.run fuel program s) (fun _ _ => True) ∧
      r.Settles (Moment.During fuel program s) (endState (Eval.run fuel program s)) := by
  induction program generalizing s with
  | nil =>
    refine ⟨⟨start, trivial⟩, ?_⟩
    rintro fuel' task t ⟨first, begins, -⟩
    cases begins
  | cons first rest ih =>
    obtain ⟨ends, lasts⟩ := sound.obeyed fuel (.exec first) s (passed _ .here) (top first s start)
    change r.EndsWell s (Eval.exec fuel first s) _ at ends
    change r.Settles _ (endState (Eval.exec fuel first s)) at lasts
    change r.EndsWell s ((Eval.exec fuel first >>= _) s) _ ∧
      r.Settles _ (endState ((Eval.exec fuel first >>= _) s))
    cases hs : Eval.exec fuel first s with
    | error interrupt s' =>
      rw [hs] at ends lasts
      rw [Eval.bind_of_error hs]
      refine ⟨ends, fun fuel' task t during => ?_⟩
      rcases Moment.during_cons during with here | ⟨_, done, -⟩
      · exact lasts fuel' task t here
      · cases hs.symm.trans done
    | ok completion s' =>
      rw [hs] at ends lasts
      rw [Eval.bind_of_ok hs]
      cases completion with
      | returned value =>
        refine ⟨⟨ends.1, trivial⟩, fun fuel' task t during => ?_⟩
        rcases Moment.during_cons during with here | ⟨_, done, -⟩
        · exact lasts fuel' task t here
        · cases hs.symm.trans done
      | normal =>
        obtain ⟨ends', lasts'⟩ := ih (sound.stays _ _ ends.1)
          (fun m begins => passed m (.later hs begins))
          fun next t leads => top next t (sound.trans _ _ _ ends.1 leads)
        refine ⟨Ends.imp ends' (fun _ t h => ⟨sound.trans _ _ _ ends.1 h.1, h.2⟩)
          fun _ t h => sound.trans _ _ _ ends.1 h, fun fuel' task t during => ?_⟩
        rcases Moment.during_cons during with here | ⟨_, done, later⟩
        · obtain ⟨⟨found, leads⟩, behind⟩ := lasts fuel' task t here
          have on := ends'.leads_endState
          exact ⟨⟨found, sound.trans _ _ _ leads on⟩, sound.trans _ _ _ behind on⟩
        · cases hs.symm.trans done
          exact lasts' fuel' task t later

end Regime.Sound

end Regime

end Lox
