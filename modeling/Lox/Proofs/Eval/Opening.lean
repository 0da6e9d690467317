/-
# A scope is made for one construct

The scopes that a run makes are numbered in the order in which they are made.  So the openings
among the moments of a run carry different numbers, which lie between the number of scopes before
the run and that behind it (`Openings`).

* `Task.openings`: the moments of every task.
* `Course.openings`: all that has happened in a session.
* `Past.Opened.origin_eq`: hence a scope is an instance of one construct only.
-/
import Lox.Proofs.Eval.Restore

namespace Lox

/-! ## 1. Openings among moments -/

/-- The scopes that are opened at some moments have numbers in a range, and each is opened for one
construct. -/
structure Openings (moments : Moment → Prop) (lo hi : Nat) : Prop where
  le : lo ≤ hi
  within : ∀ origin s, moments (.opens origin s) →
    lo ≤ s.scopes.all.size ∧ s.scopes.all.size < hi
  once : ∀ origin s origin' s', moments (.opens origin s) → moments (.opens origin' s') →
    s.scopes.all.size = s'.scopes.all.size → origin = origin'

namespace Openings

variable {moments moments' : Moment → Prop} {lo mid hi : Nat}

theorem none (le : lo ≤ hi) (h : ∀ origin s, ¬ moments (.opens origin s)) :
    Openings moments lo hi :=
  ⟨le, fun origin s hm => absurd hm (h origin s), fun origin s _ _ hm => absurd hm (h origin s)⟩

/-- A single opening, which makes the first scope of the range. -/
theorem one {origin : ScopeOrigin} {s : State} (lt : s.scopes.all.size < hi)
    (h : ∀ m, moments m → m = .opens origin s) : Openings moments s.scopes.all.size hi := by
  refine ⟨Nat.le_of_lt lt, fun origin' s' hm => ?_, fun o₁ s₁ o₂ s₂ h₁ h₂ _ => ?_⟩
  · cases h _ hm
    exact ⟨Nat.le_refl _, lt⟩
  · cases h _ h₁
    cases h _ h₂
    rfl

/-- Moments of a run, and those of what is run behind it. -/
theorem append (h : Openings moments lo mid) (h' : Openings moments' mid hi) :
    Openings (fun m => moments m ∨ moments' m) lo hi := by
  have hle := h.le
  have hle' := h'.le
  refine ⟨by omega, fun origin s hm => ?_, fun o₁ s₁ o₂ s₂ h₁ h₂ same => ?_⟩
  · rcases hm with hm | hm
    · have := h.within origin s hm
      omega
    · have := h'.within origin s hm
      omega
  · rcases h₁ with h₁ | h₁ <;> rcases h₂ with h₂ | h₂
    · exact h.once o₁ s₁ o₂ s₂ h₁ h₂ same
    · have := h.within o₁ s₁ h₁
      have := h'.within o₂ s₂ h₂
      omega
    · have := h'.within o₁ s₁ h₁
      have := h.within o₂ s₂ h₂
      omega
    · exact h'.once o₁ s₁ o₂ s₂ h₁ h₂ same

theorem imp (h : Openings moments' lo hi)
    (hm : ∀ origin s, moments (.opens origin s) → moments' (.opens origin s)) :
    Openings moments lo hi :=
  ⟨h.le, fun origin s h₁ => h.within origin s (hm _ _ h₁),
    fun o₁ s₁ o₂ s₂ h₁ h₂ => h.once o₁ s₁ o₂ s₂ (hm _ _ h₁) (hm _ _ h₂)⟩

end Openings

/-! ## 2. Tasks -/

/-- The moments of a script, and all that follows from them. -/
def Script.Leads (fuel : Nat) {α : Type} (script : Script α) (s : State) (m : Moment) : Prop :=
  ∃ first, script.Passes fuel s first ∧ first.Reaches m

/-- Nothing follows from an opening. -/
theorem Moment.eq_of_opens_reaches {origin : ScopeOrigin} {s : State} {m : Moment}
    (h : Moment.Reaches (.opens origin s) m) : m = .opens origin s := by
  rcases Relation.ReflTransGen.cases_head h with heq | ⟨_, next, -⟩
  · exact heq.symm
  · cases next

/-- A task leads to itself and to the moments of its script. -/
theorem Moment.begins_reaches {fuel : Nat} {task : Task} {s : State} {m : Moment}
    (h : Moment.Reaches (.begins (fuel + 1) task s) m) :
    m = .begins (fuel + 1) task s ∨ task.script.Leads fuel s m := by
  rcases Relation.ReflTransGen.cases_head h with heq | ⟨first, next, reaches⟩
  · exact Or.inl heq.symm
  · cases next with
    | mk passes => exact Or.inr ⟨first, passes, reaches⟩

theorem endState_bind {α β : Type} (x : Eval α) (f : α → Eval β) (s : State) :
    endState ((x >>= f) s) =
      match x s with
      | .ok v s' => endState (f v s')
      | .error _ s' => s' := by
  cases hx : x s with
  | ok v s' => rw [Eval.bind_of_ok hx]
  | error interrupt s' =>
    rw [Eval.bind_of_error hx]
    rfl

namespace Frame

theorem scopes_enter (frame : Frame) {s inner : State} (entered : frame.enter s = .ok inner) :
    inner.scopes = s.scopes := by
  cases frame with
  | same | scope id =>
    cases entered
    rfl
  | call line =>
    simp only [enter] at entered
    split at entered
    · cases entered
    · cases entered
      rfl

theorem scopes_leave (frame : Frame) (before finish : State) :
    (frame.leave before finish).scopes = finish.scopes := by
  cases frame <;> rfl

end Frame

namespace Script

variable {fuel : Nat} {α β : Type}

/-- Behind an act, or a task in its frame, the moments of a script are those of what is left. -/
theorem leads_plain {action : Eval β} {next : β → Script α} {s : State} {m : Moment}
    (h : (act (.plain action) next).Leads fuel s m) :
    ∃ v s', action s = .ok v s' ∧ (next v).Leads fuel s' m := by
  obtain ⟨first, passes, reaches⟩ := h
  cases passes with
  | act done later => exact ⟨_, _, done, first, later, reaches⟩

theorem leads_opening {origin : ScopeOrigin} {enclosing : ScopeId} {next : ScopeId → Script α}
    {s : State} {m : Moment} (h : (act (.opening origin enclosing) next).Leads fuel s m) :
    m = .opens origin s ∨ ∃ v s', Eval.newScope enclosing s = .ok v s' ∧
      (next v).Leads fuel s' m := by
  obtain ⟨first, passes, reaches⟩ := h
  cases passes with
  | opening => exact Or.inl (Moment.eq_of_opens_reaches reaches)
  | act done later => exact Or.inr ⟨_, _, done, first, later, reaches⟩

theorem leads_call {frame : Frame} {task : Task} {next : task.Answer → Script α} {s : State}
    {m : Moment} (h : (call frame task next).Leads fuel s m) :
    ∃ inner, frame.enter s = .ok inner ∧ (Moment.Reaches (.begins fuel task inner) m ∨
      ∃ v s', task.run fuel inner = .ok v s' ∧ (next v).Leads fuel (frame.leave s s') m) := by
  obtain ⟨first, passes, reaches⟩ := h
  cases passes with
  | begins entered => exact ⟨_, entered, Or.inl reaches⟩
  | call done later =>
    rw [Frame.around_eq] at done
    cases entered : frame.enter s with
    | error interrupt =>
      rw [entered] at done
      cases done
    | ok inner =>
      rw [entered] at done
      dsimp only at done
      cases ran : task.run fuel inner with
      | error interrupt s₁ =>
        rw [ran] at done
        cases done
      | ok v s₁ =>
        rw [ran] at done
        cases done
        exact ⟨inner, rfl, Or.inr ⟨_, s₁, ran, first, later, reaches⟩⟩

theorem openings {script : Script α} (steady : script.Steady)
    (tasks : ∀ task s, Openings (Moment.Reaches (.begins fuel task s)) s.scopes.all.size
      (endState (task.run fuel s)).scopes.all.size) (s : State) :
    Openings (script.Leads fuel s) s.scopes.all.size
      (endState (script.run (Task.run fuel) s)).scopes.all.size := by
  induction script generalizing s with
  | done value =>
    refine .none (Nat.le_refl _) ?_
    rintro origin s₁ ⟨first, passes, -⟩
    cases passes
  | act action next ih =>
    cases action with
    | plain action =>
      have kept := steady.1 s
      change Openings _ _ (endState ((action >>= _) s)).scopes.all.size
      change s.SamePlace (endState (action s)) at kept
      rw [endState_bind]
      cases hs : action s with
      | error interrupt s' =>
        rw [hs] at kept
        refine .none kept.scopes fun origin s₁ leads => ?_
        obtain ⟨_, _, done, -⟩ := leads_plain leads
        cases hs.symm.trans done
      | ok v s' =>
        rw [hs] at kept
        have rest := ih v (steady.2 v) s'
        have early : Openings (fun _ => False) s.scopes.all.size s'.scopes.all.size :=
          .none kept.scopes fun _ _ h => h
        refine (early.append rest).imp fun _ _ leads => ?_
        obtain ⟨_, _, done, later⟩ := leads_plain leads
        cases hs.symm.trans done
        exact Or.inr later
    | opening origin enclosing =>
      have rest := ih s.scopes.all.size (steady.2 _)
        { s with scopes := (s.scopes.add (some enclosing)).2 }
      have first : Openings (· = .opens origin s) s.scopes.all.size
          (s.scopes.add (some enclosing)).2.all.size :=
        .one (by rw [Scopes.size_add]; omega) fun _ h => h
      refine (first.append rest).imp fun _ _ leads => ?_
      rcases leads_opening leads with here | ⟨_, _, done, later⟩
      · exact Or.inl here
      · cases done
        exact Or.inr later
  | call frame task next ih =>
    change Openings _ _ (endState ((frame.around (task.run fuel) >>= _) s)).scopes.all.size
    rw [endState_bind, Frame.around_eq]
    cases entered : frame.enter s with
    | error interrupt =>
      refine .none (Nat.le_refl _) fun origin s₁ leads => ?_
      obtain ⟨_, done, -⟩ := leads_call leads
      cases entered.symm.trans done
    | ok inner =>
      have hinner : inner.scopes = s.scopes := frame.scopes_enter entered
      have first := tasks task inner
      rw [hinner] at first
      dsimp only
      cases ran : task.run fuel inner with
      | error interrupt s' =>
        rw [ran] at first
        dsimp only
        rw [frame.scopes_leave]
        refine first.imp fun _ _ leads => ?_
        obtain ⟨_, done, here | ⟨_, _, done', -⟩⟩ := leads_call leads
        · cases entered.symm.trans done
          exact here
        · cases entered.symm.trans done
          cases ran.symm.trans done'
      | ok v s' =>
        rw [ran] at first
        have rest := ih v (steady v) (frame.leave s s')
        rw [frame.scopes_leave] at rest
        refine (first.append rest).imp fun _ _ leads => ?_
        obtain ⟨_, done, here | ⟨_, _, done', later⟩⟩ := leads_call leads
        · cases entered.symm.trans done
          exact Or.inl here
        · cases entered.symm.trans done
          cases ran.symm.trans done'
          exact Or.inr later

end Script

/-- **The openings in a task** lie between the states before and behind it. -/
theorem Task.openings (fuel : Nat) (task : Task) (s : State) :
    Openings (Moment.Reaches (.begins fuel task s)) s.scopes.all.size
      (endState (task.run fuel s)).scopes.all.size := by
  induction fuel generalizing task s with
  | zero =>
    refine .none (Task.keeps_run 0 task s).scopes fun origin s₁ reaches => ?_
    rcases Relation.ReflTransGen.cases_head reaches with heq | ⟨_, next, -⟩
    · cases heq
    · cases next
  | succ fuel ih =>
    rw [Task.run_succ]
    refine (Script.openings (Task.steady_script task) ih s).imp fun origin s₁ reaches => ?_
    rcases Moment.begins_reaches reaches with heq | leads
    · cases heq
    · exact leads

/-! ## 3. Programs and sessions -/

/-- The moments of a program are those of its first statement, and those of the rest if the first
one ends normally. -/
theorem Moment.during_cons {fuel : Nat} {first : Stmt} {rest : List Stmt} {s : State} {m : Moment}
    (h : Moment.During fuel (first :: rest) s m) :
    Moment.Reaches (.begins fuel (.exec first) s) m ∨
      ∃ s', Eval.exec fuel first s = .ok .normal s' ∧ Moment.During fuel rest s' m := by
  obtain ⟨_, begins, reaches⟩ := h
  cases begins with
  | here => exact Or.inl reaches
  | later done begins => exact Or.inr ⟨_, done, _, begins, reaches⟩

theorem Eval.openings_run (fuel : Nat) (program : List Stmt) (s : State) :
    Openings (Moment.During fuel program s) s.scopes.all.size
      (endState (Eval.run fuel program s)).scopes.all.size := by
  induction program generalizing s with
  | nil =>
    refine .none (Nat.le_refl _) fun origin s₁ during => ?_
    obtain ⟨_, begins, -⟩ := during
    cases begins
  | cons first rest ih =>
    have hfirst := Task.openings fuel (.exec first) s
    change Openings _ _ (endState (Eval.exec fuel first s)).scopes.all.size at hfirst
    change Openings _ _ (endState ((Eval.exec fuel first >>= _) s)).scopes.all.size
    rw [endState_bind]
    cases hs : Eval.exec fuel first s with
    | error interrupt s' =>
      rw [hs] at hfirst
      refine hfirst.imp fun _ _ during => ?_
      rcases Moment.during_cons during with here | ⟨_, done, -⟩
      · exact here
      · cases hs.symm.trans done
    | ok completion s' =>
      rw [hs] at hfirst
      cases completion with
      | returned value =>
        refine hfirst.imp fun _ _ during => ?_
        rcases Moment.during_cons during with here | ⟨_, done, -⟩
        · exact here
        · cases hs.symm.trans done
      | normal =>
        refine (hfirst.append (ih s')).imp fun _ _ during => ?_
        rcases Moment.during_cons during with here | ⟨_, done, later⟩
        · exact Or.inl here
        · cases hs.symm.trans done
          exact Or.inr later

/-- **Every scope that a session has made was made for one construct**; that of the globals was
there before. -/
theorem Course.openings (input : Input) (room : Option Nat) (clock : Nat)
    (commands : List Command) :
    let course := (Course.new input room clock).follow commands
    Openings course.past.moments 1 course.session.state.scopes.all.size := by
  refine Course.follow_induction
    (p := fun course => Openings course.past.moments 1 course.session.state.scopes.all.size)
    (fun course command h => ?_) (.none (Nat.le_refl _) fun _ _ h => h) commands
  cases command with
  | run fuel source =>
    simp only [step]
    cases accepted : course.session.accepted? source with
    | none => rwa [Session.runWith_of_none fuel accepted]
    | some program =>
      rw [Session.runWith_of_some fuel accepted, Session.evaluate_snd]
      exact h.append (Eval.openings_run fuel program.1 _)
  | _ => exact h

/-- A scope is an instance of one construct. -/
theorem Past.Opened.origin_eq {past : Past} {lo hi : Nat} (openings : Openings past.moments lo hi)
    {scope : ScopeId} {origin origin' : ScopeOrigin} (h : past.Opened scope origin)
    (h' : past.Opened scope origin') : origin = origin' := by
  obtain ⟨s, opens, rfl⟩ := h
  obtain ⟨s', opens', same⟩ := h'
  exact openings.once _ _ _ _ opens opens' same

end Lox
