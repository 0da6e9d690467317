/-
# What comes to be known in the course of a run

A `Lore` says what is known of states, of what tasks are given and of what they answer, in a world.
Worlds grow while a run goes on, and what is known in one world need not have been known in those
before it.  `Script.Learns` is what there is to show for one script, which may pass to a later world
with every act of its own and has to accept whatever later world a task comes back with.

From the scripts follows the same of the tasks (`Lore.Sound.learned`), of programs
(`Lore.Sound.run`) and of sessions (`Lore.Sound.course`): there is one world, the last one, that is
behind the worlds in which all tasks have begun and ended (`Lore.Covers`).
-/
import Lox.Proofs.Eval.Opening
import Mathlib.Order.Defs.PartialOrder

namespace Lox

/-! ## 1. Lore -/

/-- What is known in a world. -/
structure Lore (World : Type) where
  state : World → State → Prop
  given : World → Task → Prop
  told : World → (task : Task) → task.Answer → Prop

section Lore

variable {World : Type} [Preorder World] (lore : Lore World)

/-- What there is to show for a script that is carried out from a state in a world. -/
def Script.Learns {α : Type} :
    Script α → (good : World → α → State → Prop) → World → State → Prop
  | .done value, good, w, s => lore.state w s ∧ good w value s
  | .act action next, good, w, s =>
    Ends (action.run s) (fun v s' => ∃ w', w ≤ w' ∧ (next v).Learns good w' s')
      fun _ s' => ∃ w', w ≤ w' ∧ lore.state w' s'
  | .call _ task next, good, w, s =>
    lore.state w s ∧ lore.given w task ∧
      ∀ w' v s', w ≤ w' → lore.state w' s' → lore.told w' task v → (next v).Learns good w' s'

/-- An evaluation ends in a world up to a given one. -/
abbrev Lore.EndsBelow (last : World) {α : Type} (result : EStateM.Result Interrupt State α)
    (good : World → α → Prop) : Prop :=
  Ends result (fun v s => ∃ w ≤ last, lore.state w s ∧ good w v)
    fun _ s => ∃ w ≤ last, lore.state w s

/-- The tasks that begin at some moments begin and end in worlds up to a given one. -/
def Lore.Covers (last : World) (moments : Moment → Prop) : Prop :=
  ∀ fuel task s, moments (.begins fuel task s) →
    (∃ w ≤ last, lore.state w s ∧ lore.given w task) ∧
      lore.EndsBelow last (task.run fuel s) fun w => lore.told w task

/-- An evaluation that began in a world ends in a later one, up to which everything is known that
happens at some moments. -/
def Lore.Concludes (w : World) {α : Type} (result : EStateM.Result Interrupt State α)
    (good : World → α → State → Prop) (moments : Moment → Prop) : Prop :=
  ∃ last, w ≤ last ∧
    Ends result (fun v s => lore.state last s ∧ good last v s) (fun _ s => lore.state last s) ∧
    lore.Covers last moments

/-- What is to be shown of a lore. -/
structure Lore.Sound : Prop where
  enter : ∀ (frame : Frame) w s inner, frame.enter s = .ok inner → lore.state w s →
    lore.state w inner
  leave : ∀ (frame : Frame) w s s', lore.state w s' → lore.state w (frame.leave s s')
  learns : ∀ task w s, lore.state w s → lore.given w task →
    task.script.Learns lore (fun w' v _ => lore.told w' task v) w s

variable {lore} {α β : Type} {w : World} {s : State}

theorem Lore.Covers.mono {last last' : World} {moments : Moment → Prop}
    (h : lore.Covers last moments) (le : last ≤ last') : lore.Covers last' moments := by
  intro fuel task s begun
  obtain ⟨⟨w, below, known⟩, ends⟩ := h fuel task s begun
  exact ⟨⟨w, le_trans below le, known⟩,
    Ends.imp ends (fun _ _ ⟨w, below, known⟩ => ⟨w, le_trans below le, known⟩)
      fun _ _ ⟨w, below, known⟩ => ⟨w, le_trans below le, known⟩⟩

/-! ## 2. Scripts -/

namespace Script

theorem Learns.imp {script : Script α} {good good' : World → α → State → Prop}
    (h : script.Learns lore good w s)
    (himp : ∀ w' v s', w ≤ w' → good w' v s' → good' w' v s') : script.Learns lore good' w s := by
  induction script generalizing w s with
  | done value => exact ⟨h.1, himp w value s le_rfl h.2⟩
  | act action next ih =>
    exact Ends.imp h (fun v s' ⟨w', le, hv⟩ =>
      ⟨w', le, ih v hv fun _ _ _ le' => himp _ _ _ (le_trans le le')⟩) fun _ _ hi => hi
  | call frame task next ih =>
    exact ⟨h.1, h.2.1, fun w' v s' le known told =>
      ih v (h.2.2 w' v s' le known told) fun _ _ _ le' => himp _ _ _ (le_trans le le')⟩

theorem learns_bind {script : Script α} {f : α → Script β} {good : World → β → State → Prop}
    (h : script.Learns lore (fun w' v s' => (f v).Learns lore good w' s') w s) :
    (script >>= f).Learns lore good w s := by
  induction script generalizing w s with
  | done value => exact h.2
  | act action next ih =>
    exact Ends.imp h (fun v s' ⟨w', le, hv⟩ => ⟨w', le, ih v hv⟩) fun _ _ hi => hi
  | call frame task next ih =>
    exact ⟨h.1, h.2.1, fun w' v s' le known told => ih v (h.2.2 w' v s' le known told)⟩

theorem learns_pure (known : lore.state w s) {value : α} {good : World → α → State → Prop}
    (h : good w value s) : (pure value : Script α).Learns lore good w s :=
  ⟨known, h⟩

/-- An act, with which the world may grow. -/
theorem learns_doing {x : Eval α} {good : World → α → State → Prop}
    (h : Ends (x s) (fun v s' => ∃ w', w ≤ w' ∧ lore.state w' s' ∧ good w' v s')
      fun _ s' => ∃ w', w ≤ w' ∧ lore.state w' s') : (doing x).Learns lore good w s :=
  h

/-- An act that stays in the same world. -/
theorem learns_staying {x : Eval α} {good : World → α → State → Prop}
    (h : Ends (x s) (fun v s' => lore.state w s' ∧ good w v s') fun _ s' => lore.state w s') :
    (doing x).Learns lore good w s :=
  Ends.imp h (fun _ _ hv => ⟨w, le_rfl, hv⟩) fun _ _ hi => ⟨w, le_rfl, hi⟩

theorem learns_fail (known : lore.state w s) {cause : RuntimeCause} {line : Nat}
    {good : World → α → State → Prop} :
    (doing (Eval.fail cause line : Eval α)).Learns lore good w s :=
  learns_staying known

theorem learns_seeing (known : lore.state w s) {view : State → α}
    {good : World → α → State → Prop} (h : good w (view s) s) :
    (seeing view).Learns lore good w s :=
  learns_staying ⟨known, h⟩

theorem learns_perform (known : lore.state w s) {task : Task} (given : lore.given w task)
    {good : World → task.Answer → State → Prop}
    (h : ∀ w' v s', w ≤ w' → lore.state w' s' → lore.told w' task v → good w' v s') :
    (perform task).Learns lore good w s :=
  ⟨known, given, fun w' v s' le known told => ⟨known, h w' v s' le known told⟩⟩

theorem learns_performIn (known : lore.state w s) (scope : ScopeId) {task : Task}
    (given : lore.given w task) {good : World → task.Answer → State → Prop}
    (h : ∀ w' v s', w ≤ w' → lore.state w' s' → lore.told w' task v → good w' v s') :
    (performIn scope task).Learns lore good w s :=
  ⟨known, given, fun w' v s' le known told => ⟨known, h w' v s' le known told⟩⟩

end Script

/-- An act of its own, and what is left of the script behind it. -/
theorem concludes_act {fuel : Nat} {action : Act β} {next : β → Script α}
    {good : World → α → State → Prop}
    (ih : ∀ v {w : World} {s : State}, (next v).Learns lore good w s →
      lore.Concludes w ((next v).run (Task.run fuel) s) good ((next v).Leads fuel s))
    (h : (Script.act action next).Learns lore good w s) :
    lore.Concludes w ((Script.act action next).run (Task.run fuel) s) good
      ((Script.act action next).Leads fuel s) := by
  simp only [Script.Learns] at h
  change lore.Concludes w ((action.run >>= _) s) good _
  -- the moments of what is left behind the act are all that count
  have later : ∀ {fuel' task t}, (Script.act action next).Leads fuel s (.begins fuel' task t) →
      ∃ v s', action.run s = .ok v s' ∧ (next v).Leads fuel s' (.begins fuel' task t) := by
    intro fuel' task t leads
    cases action with
    | plain action => exact Script.leads_plain leads
    | opening origin enclosing =>
      rcases Script.leads_opening leads with here | later
      · cases here
      · exact later
  cases ran : action.run s with
  | error interrupt s' =>
    rw [ran] at h
    obtain ⟨w', le, known⟩ := h
    rw [Eval.bind_of_error ran]
    refine ⟨w', le, known, fun fuel' task t leads => ?_⟩
    obtain ⟨_, _, done, -⟩ := later leads
    cases ran.symm.trans done
  | ok v s' =>
    rw [ran] at h
    obtain ⟨w', le, learns⟩ := h
    obtain ⟨last, le', ends, covers⟩ := ih v learns
    rw [Eval.bind_of_ok ran]
    refine ⟨last, le_trans le le', ends, fun fuel' task t leads => ?_⟩
    obtain ⟨_, _, done, inside⟩ := later leads
    cases ran.symm.trans done
    exact covers fuel' task t inside

namespace Lore.Sound

variable (sound : lore.Sound)

include sound

/-- A call, its end in a later world, and what is left of the script behind it. -/
theorem concludes_call {fuel : Nat} {frame : Frame} {task : Task} {next : task.Answer → Script α}
    {good : World → α → State → Prop}
    (ih : ∀ v {w : World} {s : State}, (next v).Learns lore good w s →
      lore.Concludes w ((next v).run (Task.run fuel) s) good ((next v).Leads fuel s))
    (tasks : ∀ task w s, lore.state w s → lore.given w task →
      lore.Concludes w (task.run fuel s) (fun w' v _ => lore.told w' task v)
        (Moment.Reaches (.begins fuel task s)))
    (h : (Script.call frame task next).Learns lore good w s) :
    lore.Concludes w ((Script.call frame task next).run (Task.run fuel) s) good
      ((Script.call frame task next).Leads fuel s) := by
  obtain ⟨known, given, continues⟩ := h
  change lore.Concludes w ((frame.around (task.run fuel) >>= _) s) good _
  have around := frame.around_eq (task.run fuel) s
  cases entered : frame.enter s with
  | error interrupt =>
    rw [entered] at around
    rw [Eval.bind_of_error around]
    refine ⟨w, le_rfl, known, fun fuel' task' t leads => ?_⟩
    obtain ⟨_, done, -⟩ := Script.leads_call leads
    cases entered.symm.trans done
  | ok inner =>
    rw [entered] at around
    dsimp only at around
    obtain ⟨last, le, ends, covers⟩ :=
      tasks task w inner (sound.enter frame w s inner entered known) given
    cases ran : task.run fuel inner with
    | error interrupt s' =>
      rw [ran] at around ends
      rw [Eval.bind_of_error around]
      refine ⟨last, le, sound.leave frame last s s' ends, fun fuel' task' t leads => ?_⟩
      obtain ⟨_, done, inside | ⟨_, _, done', -⟩⟩ := Script.leads_call leads
      · cases entered.symm.trans done
        exact covers fuel' task' t inside
      · cases entered.symm.trans done
        cases ran.symm.trans done'
    | ok v s' =>
      rw [ran] at around ends
      rw [Eval.bind_of_ok around]
      obtain ⟨last', le', ends', covers'⟩ := ih v
        (continues last v _ le (sound.leave frame last s s' ends.1) ends.2)
      refine ⟨last', le_trans le le', ends', fun fuel' task' t leads => ?_⟩
      obtain ⟨_, done, inside | ⟨_, _, done', later⟩⟩ := Script.leads_call leads
      · cases entered.symm.trans done
        exact covers.mono le' fuel' task' t inside
      · cases entered.symm.trans done
        cases ran.symm.trans done'
        exact covers' fuel' task' t later

/-- A script learns what it says, if the tasks that it calls do. -/
theorem script {fuel : Nat} {script : Script α} {good : World → α → State → Prop}
    (h : script.Learns lore good w s)
    (tasks : ∀ task w s, lore.state w s → lore.given w task →
      lore.Concludes w (task.run fuel s) (fun w' v _ => lore.told w' task v)
        (Moment.Reaches (.begins fuel task s))) :
    lore.Concludes w (script.run (Task.run fuel) s) good (script.Leads fuel s) := by
  have none : ∀ {script : Script α} {s : State}, (∀ m, ¬ script.Leads fuel s m) →
      ∀ last, lore.Covers last (script.Leads fuel s) :=
    fun empty _ _ _ _ leads => absurd leads (empty _)
  induction script generalizing w s with
  | done value =>
    refine ⟨w, le_rfl, h, none ?_ w⟩
    rintro m ⟨first, passes, -⟩
    cases passes
  | act action next ih => exact concludes_act ih h
  | call frame task next ih => exact sound.concludes_call ih tasks h

/-! ## 3. Tasks, programs and sessions -/

/-- **What every script learns is learned by every task.** -/
theorem learned : ∀ fuel task w s, lore.state w s → lore.given w task →
    lore.Concludes w (task.run fuel s) (fun w' v _ => lore.told w' task v)
      (Moment.Reaches (.begins fuel task s)) := by
  intro fuel
  induction fuel with
  | zero =>
    intro task w s known given
    rw [Task.run_zero]
    refine ⟨w, le_rfl, known, fun fuel' task' t reaches => ?_⟩
    rcases Relation.ReflTransGen.cases_head reaches with same | ⟨_, next, -⟩
    · cases same
      rw [Task.run_zero]
      exact ⟨⟨w, le_rfl, known, given⟩, w, le_rfl, known⟩
    · cases next
  | succ fuel ih =>
    intro task w s known given
    rw [Task.run_succ]
    obtain ⟨last, le, ends, covers⟩ := sound.script (sound.learns task w s known given) ih
    refine ⟨last, le, ends, fun fuel' task' t reaches => ?_⟩
    rcases Moment.begins_reaches reaches with same | leads
    · cases same
      rw [Task.run_succ]
      exact ⟨⟨w, le, known, given⟩, Ends.imp ends (fun _ _ h => ⟨last, le_rfl, h⟩)
        fun _ _ h => ⟨last, le_rfl, h⟩⟩
    · exact covers fuel' task' t leads

/-- **So it is by every program**, if its statements can begin in any world. -/
theorem run (top : ∀ w first, lore.given w (.exec first)) (fuel : Nat) (program : List Stmt)
    (known : lore.state w s) :
    lore.Concludes w (Eval.run fuel program s) (fun _ _ _ => True)
      (Moment.During fuel program s) := by
  induction program generalizing w s with
  | nil =>
    refine ⟨w, le_rfl, ⟨known, trivial⟩, ?_⟩
    rintro fuel' task t ⟨first, begins, -⟩
    cases begins
  | cons first rest ih =>
    obtain ⟨last, le, ends, covers⟩ := sound.learned fuel (.exec first) w s known (top w first)
    change Ends (Eval.exec fuel first s) _ _ at ends
    change lore.Concludes w ((Eval.exec fuel first >>= _) s) _ _
    cases ran : Eval.exec fuel first s with
    | error interrupt s' =>
      rw [ran] at ends
      rw [Eval.bind_of_error ran]
      refine ⟨last, le, ends, fun fuel' task t during => ?_⟩
      rcases Moment.during_cons during with here | ⟨_, done, -⟩
      · exact covers fuel' task t here
      · cases ran.symm.trans done
    | ok completion s' =>
      rw [ran] at ends
      rw [Eval.bind_of_ok ran]
      cases completion with
      | returned value =>
        refine ⟨last, le, ⟨ends.1, trivial⟩, fun fuel' task t during => ?_⟩
        rcases Moment.during_cons during with here | ⟨_, done, -⟩
        · exact covers fuel' task t here
        · cases ran.symm.trans done
      | normal =>
        obtain ⟨last', le', ends', covers'⟩ := ih ends.1
        refine ⟨last', le_trans le le', ends', fun fuel' task t during => ?_⟩
        rcases Moment.during_cons during with here | ⟨_, done, later⟩
        · exact covers.mono le' fuel' task t here
        · cases ran.symm.trans done
          exact covers' fuel' task t later

/-- **And in every session**, if what is known of a state depends on scopes, heap and stamps only:
in the end there is a world behind all that has happened. -/
theorem course (top : ∀ w first, lore.given w (.exec first))
    (same : ∀ w (s s' : State), lore.state w s → s'.scopes = s.scopes → s'.heap = s.heap →
      s'.stamp = s.stamp → lore.state w s')
    {input : Input} {room : Option Nat} {clock : Nat}
    (initial : lore.state w (.initial input room clock)) (commands : List Command) :
    ∃ last, lore.state last ((Course.new input room clock).follow commands).session.state ∧
      lore.Covers last ((Course.new input room clock).follow commands).past.moments := by
  refine Course.follow_induction
    (p := fun course => ∃ last, lore.state last course.session.state ∧
      lore.Covers last course.past.moments) (fun course command ih => ?_)
    ⟨w, initial, fun _ _ _ h => False.elim h⟩ commands
  obtain ⟨last, known, covers⟩ := ih
  cases command with
  | run fuel source =>
    cases accepted : course.session.accepted? source with
    | none =>
      simp only [Course.step, accepted, Session.runWith_of_none fuel accepted]
      exact ⟨last, known, covers⟩
    | some found =>
      obtain ⟨program, resolution⟩ := found
      simp only [Course.step, accepted, Session.runWith_of_some fuel accepted,
        Session.evaluate_snd]
      have ready : lore.state last (course.session.ready resolution) :=
        same last _ _ known rfl rfl rfl
      obtain ⟨last', le, ends, covers'⟩ := sound.run top fuel program ready
      refine ⟨last', ?_, fun fuel' task t moment => ?_⟩
      · exact Ends.holds_endState (Ends.imp ends (fun _ _ h => h.1) fun _ _ h => h)
      · rcases moment with earlier | during
        · exact covers.mono le fuel' task t earlier
        · exact covers' fuel' task t during
  | takeOutput | readLine | feed bytes =>
    exact ⟨last, same last _ _ known rfl rfl rfl, covers⟩

end Lore.Sound

end Lore

end Lox
