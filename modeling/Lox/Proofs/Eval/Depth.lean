/-
# The number of calls in progress

The way from a moment to one that follows from it leads through the tasks that are then in progress
(`Moment.Within`), and as many of them are activations of calls as the state counts
(`Moment.Within.depth`).  A call fails with a stack overflow of its own just where there are as many
as there may be (`Moment.Overflows`), and a script ends so just if it leads to such a call
(`Script.overflow_iff`).
-/
import Lox.Proofs.Eval.Conduct
import Lox.Proofs.Eval.Opening

namespace Lox

/-! ## 1. Activations -/

/-- The tasks in progress on the way from one moment to another, from the inside out, the first one
apart. -/
inductive Moment.Within (start : Moment) : List Task → Moment → Prop
  | start : Within start [] start
  | begins {stack : List Task} {m : Moment} {fuel : Nat} {task : Task} {s : State}
      (h : Within start stack m) (next : m.Next (.begins fuel task s)) :
      Within start (task :: stack) (.begins fuel task s)
  | opens {stack : List Task} {m : Moment} {origin : ScopeOrigin} {s : State}
      (h : Within start stack m) (next : m.Next (.opens origin s)) :
      Within start stack (.opens origin s)

/-- Whatever follows from a moment has a way there. -/
theorem Moment.exists_within {start m : Moment} (h : start.Reaches m) :
    ∃ stack, start.Within stack m := by
  induction h with
  | refl => exact ⟨[], .start⟩
  | @tail _ m _ next ih =>
    obtain ⟨stack, within⟩ := ih
    cases m with
    | begins fuel task s => exact ⟨_, .begins within next⟩
    | opens origin s => exact ⟨_, .opens within next⟩

/-- The number of activations that begin at a moment. -/
def Moment.activations : Moment → Nat
  | .begins _ task _ => task.isActivation.toNat
  | .opens .. => 0

/-- A frame counts a call if it is one, and no more than there may be. -/
theorem Frame.depth_enter {frame : Frame} {s inner : State} (entered : frame.enter s = .ok inner) :
    inner.depth = s.depth + frame.isCall.toNat ∧ (s.depth ≤ maxDepth → inner.depth ≤ maxDepth) := by
  cases frame with
  | same | scope id =>
    cases entered
    exact ⟨rfl, fun le => le⟩
  | call line =>
    simp only [enter] at entered
    split at entered
    · cases entered
    · rename_i room
      cases entered
      exact ⟨rfl, fun _ => Nat.lt_of_not_le room⟩

/-- An act that keeps its place, or a task in its frame, leaves the number of calls as it was. -/
theorem Eval.Keeps.depth_eq {α : Type} {x : Eval α} (h : x.Keeps) {s s' : State} {v : α}
    (done : x s = .ok v s') : s'.depth = s.depth := by
  have same := (h s).depth
  rwa [done] at same

/-- At a moment of a script, as many more calls are in progress as there are activations that
begin. -/
theorem Script.depth_of_passes {α : Type} {script : Script α} {calls : Bool} {fuel : Nat}
    {s : State} {m : Moment} (steady : script.Steady) (fitting : script.Fitting calls)
    (passes : script.Passes fuel s m) :
    m.state.depth = s.depth + m.activations ∧
      (s.depth ≤ maxDepth → m.state.depth ≤ maxDepth) := by
  induction passes with
  | opening => exact ⟨rfl, fun le => le⟩
  | @act _ action next s s' v m done later ih =>
    rw [← steady.1.depth_eq done]
    exact ih (steady.2 v) (fitting.act.2 v)
  | @begins frame task next s inner entered =>
    have counted : frame.isCall = task.isActivation := fitting.2.1.1.trans fitting.2.1.2.symm
    rw [Moment.activations, ← counted]
    exact Frame.depth_enter entered
  | @call frame task next s s' v m done later ih =>
    rw [← (frame.keeps_around (Task.keeps_run _ task)).depth_eq done]
    exact ih (steady v) (fitting.2.2 v)

/-- **The state counts the activations in progress**, and there are no more than there may be. -/
theorem Moment.Within.depth {start m : Moment} {stack : List Task} (h : start.Within stack m)
    (fits : start.Fits) :
    m.state.depth = start.state.depth + stack.countP Task.isActivation ∧
      (start.state.depth ≤ maxDepth → m.state.depth ≤ maxDepth) := by
  have fits' : ∀ {stack : List Task} {m : Moment}, start.Within stack m → m.Fits := by
    intro stack m within
    induction within with
    | start => exact fits
    | begins _ next ih => exact ih.reaches (.single next)
    | opens => trivial
  induction h with
  | start => exact ⟨rfl, fun le => le⟩
  | begins within next ih =>
    have fits := fits' within
    obtain ⟨passes⟩ := next
    obtain ⟨counted, bounded⟩ :=
      Script.depth_of_passes (Task.steady_script _) (Task.fitting_script fits) passes
    refine ⟨?_, fun le => bounded (ih.2 le)⟩
    rw [counted, activations, List.countP_cons, ← Nat.add_assoc]
    exact congrArg₂ (· + ·) ih.1 (by cases Task.isActivation _ <;> rfl)
  | opens within next ih =>
    have fits := fits' within
    obtain ⟨passes⟩ := next
    obtain ⟨counted, bounded⟩ :=
      Script.depth_of_passes (Task.steady_script _) (Task.fitting_script fits) passes
    exact ⟨counted.trans ih.1, fun le => bounded (ih.2 le)⟩

/-! ## 2. Calls -/

/-- The error for too many calls. -/
def overflow (line : Nat) : Interrupt := .error ⟨.stackOverflow, line⟩

theorem not_plain_overflow (line : Nat) : ¬ (overflow line).Plain := fun plain => plain rfl

/-- A value is called on a line that can be called and takes as many arguments, while as many calls
are in progress as there may be. -/
def Moment.Overflows (line : Nat) : Moment → Prop
  | .begins (_ + 1) (.call (.callable callable) arguments line') s =>
    callable.arity = arguments.length ∧ maxDepth ≤ s.depth ∧ line' = line
  | _ => False

section Call

variable {fuel line : Nat} {callable : Callable} {arguments : List Value} {s : State}

/-- Only a value that can be called can be called. -/
theorem Eval.call_notCallable {callee : Value} (h : ∀ callable, callee ≠ .callable callable) :
    call (fuel + 1) callee arguments line s = .error (.error ⟨.notCallable, line⟩) s := by
  change (Task.call callee arguments line).run (fuel + 1) s = _
  rw [Task.run_succ]
  cases callee with
  | callable callable => exact absurd rfl (h callable)
  | _ => rfl

/-- The arguments are counted before the calls. -/
theorem Eval.call_arity (h : callable.arity ≠ arguments.length) :
    call (fuel + 1) (.callable callable) arguments line s =
      .error (.error ⟨.arity callable.arity arguments.length, line⟩) s := by
  rw [call, if_neg h]
  rfl

theorem Eval.call_full (h : callable.arity = arguments.length) (full : maxDepth ≤ s.depth) :
    call (fuel + 1) (.callable callable) arguments line s = .error (overflow line) s := by
  rw [call, if_pos h, nested, if_pos full]
  rfl

/-- What is called begins with one more call in progress. -/
theorem Moment.next_call (h : callable.arity = arguments.length) (room : s.depth < maxDepth) :
    Moment.Next (.begins (fuel + 1) (.call (.callable callable) arguments line) s)
      (.begins fuel (.apply callable arguments line) { s with depth := s.depth + 1 }) := by
  refine .mk ?_
  change (Task.callScript (.callable callable) arguments line).Passes fuel s _
  unfold Task.callScript
  dsimp only
  rw [if_pos h]
  refine .begins ?_
  rw [Frame.enter, if_neg (Nat.not_le_of_lt room)]

theorem Eval.call_of_arity (h : callable.arity = arguments.length) :
    call (fuel + 1) (.callable callable) arguments line s =
      (Frame.call line).around ((Task.apply callable arguments line).run fuel) s := by
  rw [call, if_pos h]
  rfl

/-- Nothing begins in a call that fails by itself. -/
theorem Moment.not_next_call {m : Moment} (full : callable.arity = arguments.length →
      maxDepth ≤ s.depth) :
    ¬ Moment.Next (.begins (fuel + 1) (.call (.callable callable) arguments line) s) m := by
  rintro ⟨passes⟩
  have leads : (Task.callScript (.callable callable) arguments line).Leads fuel s m :=
    ⟨m, passes, .refl⟩
  unfold Task.callScript at leads
  dsimp only at leads
  split at leads
  · rename_i arity
    obtain ⟨inner, entered, -⟩ := Script.leads_call leads
    rw [Frame.enter, if_pos (full arity)] at entered
    cases entered
  · obtain ⟨v, s', done, -⟩ := Script.leads_plain leads
    cases done

/-- A call has its activation begin just if it has the right arguments and there is room. -/
theorem Moment.next_call_iff :
    Moment.Next (.begins (fuel + 1) (.call (.callable callable) arguments line) s)
        (.begins fuel (.apply callable arguments line) { s with depth := s.depth + 1 }) ↔
      callable.arity = arguments.length ∧ s.depth < maxDepth := by
  constructor
  · intro next
    by_contra not
    exact Moment.not_next_call
      (fun arity => Nat.le_of_not_lt fun room => not ⟨arity, room⟩) next
  · rintro ⟨arity, room⟩
    exact Moment.next_call arity room

/-- A call fails with a stack overflow of its own just if it has the right arguments and there is no
room. -/
theorem Eval.call_overflows_iff (bound : s.depth ≤ maxDepth) :
    (call (fuel + 1) (.callable callable) arguments line s = .error (overflow line) s ∧
        ∀ m, ¬ Moment.Next (.begins (fuel + 1) (.call (.callable callable) arguments line) s) m) ↔
      callable.arity = arguments.length ∧ s.depth = maxDepth := by
  constructor
  · rintro ⟨failed, nothing⟩
    by_cases arity : callable.arity = arguments.length
    · refine ⟨arity, Nat.le_antisymm bound (Nat.le_of_not_lt fun room => ?_)⟩
      exact nothing _ (Moment.next_call arity room)
    · rw [call_arity arity] at failed
      cases failed
  · rintro ⟨arity, full⟩
    have most : maxDepth ≤ s.depth := Nat.le_of_eq full.symm
    exact ⟨call_full arity most, fun m => Moment.not_next_call fun _ => most⟩

end Call

/-! ## 3. Interrupts on their way out -/

/-- What interrupts a task interrupts the script that it is in. -/
theorem Script.error_of_passes {α : Type} {script : Script α} {fuel n : Nat} {s inner t : State}
    {task : Task} {interrupt : Interrupt} (passes : script.Passes fuel s (.begins n task inner))
    (failed : task.run n inner = .error interrupt t) :
    ∃ s', script.run (Task.run fuel) s = .error interrupt s' := by
  generalize begins : Moment.begins n task inner = m at passes
  induction passes with
  | opening => cases begins
  | act done later ih =>
    obtain ⟨s', failed'⟩ := ih begins
    exact ⟨s', (Eval.bind_of_ok done _).trans failed'⟩
  | @begins frame task next s inner entered =>
    cases begins
    have around : frame.around (task.run fuel) s = .error interrupt (frame.leave s t) :=
      (Frame.around_of_ok entered _).trans (congrArg (frame.leaveEnd s) failed)
    exact ⟨_, Eval.bind_of_error around _⟩
  | call done later ih =>
    obtain ⟨s', failed'⟩ := ih begins
    exact ⟨s', (Eval.bind_of_ok done _).trans failed'⟩

/-- **What interrupts a task interrupts all tasks around it.** -/
theorem Moment.error_of_reaches {fuel n : Nat} {outer task : Task} {s inner t : State}
    {interrupt : Interrupt}
    (reaches : Moment.Reaches (.begins fuel outer s) (.begins n task inner))
    (failed : task.run n inner = .error interrupt t) :
    ∃ s', outer.run fuel s = .error interrupt s' := by
  generalize begins : Moment.begins fuel outer s = m at reaches
  induction reaches using Relation.ReflTransGen.head_induction_on generalizing fuel outer s with
  | refl =>
    cases begins
    exact ⟨t, failed⟩
  | @head _ m next reaches ih =>
    subst begins
    obtain ⟨passes⟩ := next
    cases m with
    | opens origin s' => cases Moment.eq_of_opens_reaches reaches
    | begins fuel' task' s' =>
      obtain ⟨t', failed'⟩ := ih rfl
      rw [Task.run_succ]
      exact Script.error_of_passes passes failed'

/-! ## 4. Stack overflows -/

/-- **An evaluation that ends with a stack overflow has come to a call that does.** -/
theorem Task.overflow {fuel : Nat} {task : Task} {s s' : State} {line : Nat} (fits : task.Fits)
    (failed : task.run fuel s = .error (overflow line) s') :
    ∃ m, Moment.Reaches (.begins fuel task s) m ∧ m.Overflows line := by
  induction fuel generalizing task s s' with
  | zero =>
    rw [run_zero] at failed
    cases failed
  | succ fuel ih =>
    by_cases called : ∃ callee arguments line', task = .call callee arguments line'
    · obtain ⟨callee, arguments, line', rfl⟩ := called
      change Eval.call (fuel + 1) callee arguments line' s = _ at failed
      by_cases callable : ∃ callable, callee = .callable callable
      · obtain ⟨callable, rfl⟩ := callable
        by_cases arity : callable.arity = arguments.length
        · rcases Nat.lt_or_ge s.depth maxDepth with room | full
          · have entered : (Frame.call line').enter s = .ok { s with depth := s.depth + 1 } :=
              if_neg (Nat.not_le_of_lt room)
            rw [Eval.call_of_arity arity, Frame.around_of_ok entered] at failed
            have fits : (apply callable arguments line').Fits := arity
            cases ran : (apply callable arguments line').run fuel
                { s with depth := s.depth + 1 } with
            | ok v t =>
              rw [ran] at failed
              cases failed
            | error interrupt t =>
              rw [ran] at failed
              cases failed
              obtain ⟨m, reaches, overflows⟩ := ih fits ran
              exact ⟨m, .head (Moment.next_call arity room) reaches, overflows⟩
          · rw [Eval.call_full arity full] at failed
            cases failed
            exact ⟨_, .refl, arity, full, rfl⟩
        · rw [Eval.call_arity arity] at failed
          cases failed
      · rw [Eval.call_notCallable (not_exists.1 callable)] at failed
        cases failed
    · rw [run_succ] at failed
      rcases (fitting_script fits).failed failed (not_plain_overflow line) with
        ⟨calls, -⟩ | ⟨other, inner, t, passes, failed'⟩
      · cases task with
        | call callee arguments line' => exact absurd ⟨_, _, _, rfl⟩ called
        | _ => cases calls
      · obtain ⟨m, reaches, overflows⟩ := ih ((fitting_script fits).fits passes) failed'
        exact ⟨m, .head (.mk passes) reaches, overflows⟩

theorem Moment.Overflows.failed {m : Moment} {line : Nat} (h : m.Overflows line) :
    ∃ fuel task s, m = .begins fuel task s ∧ task.run fuel s = .error (overflow line) s := by
  unfold Overflows at h
  split at h
  · obtain ⟨arity, full, rfl⟩ := h
    exact ⟨_, _, _, rfl, Eval.call_full arity full⟩
  · exact h.elim

/-- **A script ends with a stack overflow just if it leads to a call that does.** -/
theorem Script.overflow_iff {α : Type} {script : Script α} (fitting : script.Fitting false)
    {fuel line : Nat} {s : State} :
    (∃ s', script.run (Task.run fuel) s = .error (overflow line) s') ↔
      ∃ m, script.Leads fuel s m ∧ m.Overflows line := by
  constructor
  · rintro ⟨s', failed⟩
    rcases fitting.failed failed (not_plain_overflow line) with
      ⟨⟨⟩, -⟩ | ⟨task, inner, t, passes, failed'⟩
    obtain ⟨m, reaches, overflows⟩ := Task.overflow (fitting.fits passes) failed'
    exact ⟨m, ⟨_, passes, reaches⟩, overflows⟩
  · rintro ⟨m, ⟨first, passes, reaches⟩, overflows⟩
    obtain ⟨n, task, inner, rfl, failed⟩ := overflows.failed
    cases first with
    | opens origin t => cases Moment.eq_of_opens_reaches reaches
    | begins fuel' task' t =>
      obtain ⟨t', failed'⟩ := Moment.error_of_reaches reaches failed
      exact Script.error_of_passes passes failed'

end Lox
