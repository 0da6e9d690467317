/-
# The moments of a run as a list

`Moment.Reaches` is a relation, which is what there is to reason about.  The moments of a run can
also be listed in the order in which they come (`Task.trace`), and the list holds these moments and
no others (`Task.mem_trace`).  So whether a session passes a moment of some kind can be found out
by computing (`Course.moment_of_trace`).
-/
import Lox.Proofs.Eval.Opening

namespace Lox

/-! ## 1. Scripts -/

section Script

variable (fuel : Nat) (tasks : Task → State → List Moment) {α : Type}

/-- The moments of a script in order, given those of the tasks that it calls. -/
def Script.trace : Script α → State → List Moment
  | .done _, _ => []
  | .act (.plain action) next, s =>
    match action s with
    | .ok v s' => (next v).trace s'
    | .error _ _ => []
  | .act (.opening origin enclosing) next, s =>
    .opens origin s ::
      match Eval.newScope enclosing s with
      | .ok v s' => (next v).trace s'
      | .error _ _ => []
  | .call frame task next, s =>
    match frame.enter s with
    | .error _ => []
    | .ok inner =>
      tasks task inner ++
        match task.run fuel inner with
        | .ok v s' => (next v).trace (frame.leave s s')
        | .error _ _ => []

variable {fuel tasks} {m : Moment}

theorem Script.leads_of_mem_trace
    (sound : ∀ task s, m ∈ tasks task s → Moment.Reaches (.begins fuel task s) m)
    {script : Script α} {s : State} (h : m ∈ script.trace fuel tasks s) :
    script.Leads fuel s m := by
  induction script generalizing s with
  | done value => cases h
  | act action next ih =>
    cases action with
    | plain action =>
      simp only [trace] at h
      cases hs : action s with
      | error interrupt s' =>
        rw [hs] at h
        cases h
      | ok v s' =>
        rw [hs] at h
        obtain ⟨first, passes, reaches⟩ := ih v h
        exact ⟨first, .act hs passes, reaches⟩
    | opening origin enclosing =>
      rcases List.mem_cons.1 h with rfl | h
      · exact ⟨_, .opening, .refl⟩
      · obtain ⟨first, passes, reaches⟩ := ih _ h
        exact ⟨first, .act rfl passes, reaches⟩
  | call frame task next ih =>
    simp only [trace] at h
    cases entered : frame.enter s with
    | error interrupt =>
      rw [entered] at h
      cases h
    | ok inner =>
      rw [entered] at h
      rcases List.mem_append.1 h with h | h
      · exact ⟨_, .begins entered, sound task inner h⟩
      · cases ran : task.run fuel inner with
        | error interrupt s' =>
          rw [ran] at h
          cases h
        | ok v s' =>
          rw [ran] at h
          obtain ⟨first, passes, reaches⟩ := ih v h
          refine ⟨first, .call ?_ passes, reaches⟩
          simp only [Frame.around_eq, entered, ran]

theorem Script.mem_trace_of_leads
    (complete : ∀ task s, Moment.Reaches (.begins fuel task s) m → m ∈ tasks task s)
    {script : Script α} {s : State} (h : script.Leads fuel s m) :
    m ∈ script.trace fuel tasks s := by
  induction script generalizing s with
  | done value =>
    obtain ⟨first, passes, -⟩ := h
    cases passes
  | act action next ih =>
    cases action with
    | plain action =>
      obtain ⟨v, s', done, later⟩ := leads_plain h
      simp only [trace, done]
      exact ih v later
    | opening origin enclosing =>
      rcases leads_opening h with rfl | ⟨v, s', done, later⟩
      · exact List.mem_cons_self
      · simp only [trace, done]
        exact List.mem_cons_of_mem _ (ih v later)
  | call frame task next ih =>
    obtain ⟨inner, entered, inside⟩ := leads_call h
    simp only [trace, entered]
    rcases inside with reaches | ⟨v, s', ran, later⟩
    · exact List.mem_append_left _ (complete task inner reaches)
    · simp only [ran]
      exact List.mem_append_right _ (ih v later)

end Script

/-! ## 2. Tasks and programs -/

/-- The moments of a task in order. -/
def Task.trace : (fuel : Nat) → Task → State → List Moment
  | 0, task, s => [.begins 0 task s]
  | fuel + 1, task, s => .begins (fuel + 1) task s :: task.script.trace fuel (Task.trace fuel) s

/-- **The list holds the moments of a task and no others.** -/
theorem Task.mem_trace {fuel : Nat} {task : Task} {s : State} {m : Moment} :
    m ∈ task.trace fuel s ↔ Moment.Reaches (.begins fuel task s) m := by
  induction fuel generalizing task s with
  | zero =>
    refine ⟨fun h => ?_, fun reaches => ?_⟩
    · cases List.mem_singleton.1 h
      exact .refl
    · rcases Relation.ReflTransGen.cases_head reaches with heq | ⟨_, next, -⟩
      · exact List.mem_singleton.2 heq.symm
      · cases next
  | succ fuel ih =>
    refine ⟨fun h => ?_, fun reaches => ?_⟩
    · rcases List.mem_cons.1 h with rfl | h
      · exact .refl
      · obtain ⟨first, passes, reaches⟩ := Script.leads_of_mem_trace (fun _ _ => ih.1) h
        exact .head (.mk passes) reaches
    · rcases Moment.begins_reaches reaches with rfl | leads
      · exact List.mem_cons_self
      · exact List.mem_cons_of_mem _ (Script.mem_trace_of_leads (fun _ _ => ih.2) leads)

/-- The moments of a program in order. -/
def Moment.trace (fuel : Nat) : List Stmt → State → List Moment
  | [], _ => []
  | first :: rest, s =>
    (Task.exec first).trace fuel s ++
      match Eval.exec fuel first s with
      | .ok .normal s' => trace fuel rest s'
      | _ => []

theorem Moment.during_of_mem_trace {fuel : Nat} {program : List Stmt} {s : State} {m : Moment}
    (h : m ∈ Moment.trace fuel program s) : Moment.During fuel program s m := by
  induction program generalizing s with
  | nil => cases h
  | cons first rest ih =>
    rcases List.mem_append.1 h with h | h
    · exact ⟨_, .here, Task.mem_trace.1 h⟩
    · cases done : Eval.exec fuel first s with
      | error interrupt s' =>
        rw [done] at h
        cases h
      | ok completion s' =>
        cases completion with
        | returned value =>
          rw [done] at h
          cases h
        | normal =>
          rw [done] at h
          obtain ⟨start, begins, reaches⟩ := ih h
          exact ⟨start, .later done begins, reaches⟩

theorem Moment.mem_trace_of_during {fuel : Nat} {program : List Stmt} {s : State} {m : Moment}
    (h : Moment.During fuel program s m) : m ∈ Moment.trace fuel program s := by
  induction program generalizing s with
  | nil =>
    obtain ⟨start, begins, -⟩ := h
    cases begins
  | cons first rest ih =>
    rcases Moment.during_cons h with here | ⟨s', done, later⟩
    · exact List.mem_append_left _ (Task.mem_trace.2 here)
    · refine List.mem_append_right _ ?_
      rw [done]
      exact ih later

/-! ## 3. Sessions -/

/-- The moments of a program that has been resolved, if it can be. -/
def Session.trace (session : Session) (fuel : Nat) (program : List Stmt) : List Moment :=
  match resolve program with
  | .error _ => []
  | .ok resolution => Moment.trace fuel program (session.ready resolution)

/-- A moment that is found in the run of a text has happened in the session. -/
theorem Course.moment_of_trace (course : Course) (fuel : Nat) (source : String)
    (program : List Stmt) (read : (course.session.accepted? source).map Prod.fst = some program)
    (p : Moment → Bool) (found : (course.session.trace fuel program).any p = true) :
    ∃ m, (course.step (.run fuel source)).past.moments m ∧ p m = true := by
  obtain ⟨⟨_, resolution⟩, accepted, rfl⟩ := Option.map_eq_some_iff.1 read
  obtain ⟨_, -, -, -, resolved⟩ := Session.accepted?_eq_some accepted
  obtain ⟨m, hm, hp⟩ := List.any_eq_true.1 found
  rw [Session.trace, resolved] at hm
  refine ⟨m, ?_, hp⟩
  simp only [step, accepted]
  exact Or.inr (Moment.during_of_mem_trace hm)

/-- The same, where the program is not known beforehand. -/
theorem Course.moment_of_text (course : Course) (fuel : Nat) (source : String) (p : Moment → Bool)
    (found : (course.session.accepted? source).any
      (fun accepted => (course.session.trace fuel accepted.1).any p) = true) :
    ∃ m, (course.step (.run fuel source)).past.moments m ∧ p m = true := by
  obtain ⟨⟨program, resolution⟩, accepted, found⟩ := (Option.any_eq_true ..).1 found
  exact course.moment_of_trace fuel source program (by rw [accepted]; rfl) p found

/-- What holds of all moments that are found in the run of a text holds of all that happens. -/
theorem Course.moments_of_trace (course : Course) (fuel : Nat) (source : String)
    (program : List Stmt) (read : (course.session.accepted? source).map Prod.fst = some program)
    (p : Moment → Bool) (all : (course.session.trace fuel program).all p = true) {m : Moment}
    (happened : (course.step (.run fuel source)).past.moments m) :
    course.past.moments m ∨ p m = true := by
  obtain ⟨⟨_, resolution⟩, accepted, rfl⟩ := Option.map_eq_some_iff.1 read
  obtain ⟨_, -, -, -, resolved⟩ := Session.accepted?_eq_some accepted
  rw [Session.trace, resolved] at all
  simp only [step, accepted] at happened
  exact happened.imp_right fun during =>
    List.all_eq_true.1 all m (Moment.mem_trace_of_during during)

end Lox
