/-
# Evaluations with a limited writer and with one that has no limit

An evaluation does the same with a writer that has a limit as with one that has none, up to the
first print that the writer refuses (`Account.Lockstep`).  That print ends it: the error is on the
line of the print, and the state behind it is the one in which the text was to be printed, with the
output closed and the place put back (`Refusal.stop`).

This is so of acts, since the output does nothing to them, and of frames; one evaluation and then
another are in lockstep if both are (`Account.Lockstep.andThen`).  Only prints are different
(`Task.lockstep_print`).  All tasks follow by induction on the fuel (`Task.lockstep`).
-/
import Lox.Proofs.Eval.Printing

namespace Lox

/-! ## 1. Refusals -/

/-- A print that the writer refuses: its value is evaluated, with a limit and without, but the
writer does not take the text. -/
structure Refusal where
  fuel : Nat
  line : Nat
  expression : Expr
  /-- The state in which the print begins. -/
  before : State
  value : Value
  /-- The state in which the text is to be printed. -/
  state : State
  evaluates : Eval.eval fuel expression before = .ok value state
  evaluates_unlimited : Eval.eval fuel expression before.unlimited = .ok value state.unlimited
  refuses : state.output.takes (state.heap.text value) = false

namespace Refusal

variable (refusal : Refusal)

/-- The moment at which the print begins. -/
def moment : Moment :=
  .begins (refusal.fuel + 1) (.exec (.print refusal.line refusal.expression)) refusal.before

/-- The text that is not printed. -/
def text : String := refusal.state.heap.text refusal.value

/-- The state behind a refusal, in the place of another state. -/
def stop (s : State) : State :=
  { refusal.state with output := refusal.state.output.close, scope := s.scope, depth := s.depth }

theorem stop_congr {s t : State} (scope : t.scope = s.scope) (depth : t.depth = s.depth) :
    refusal.stop t = refusal.stop s := by
  rw [stop, scope, depth, stop]

/-- Frames put the place back. -/
theorem leave_stop {frame : Frame} {s inner : State} (entered : frame.enter s = .ok inner) :
    frame.leave s (refusal.stop inner) = refusal.stop s := by
  cases frame with
  | same | scope id =>
    cases entered
    rfl
  | call line =>
    simp only [Frame.enter] at entered
    split at entered
    · cases entered
    · cases entered
      rfl

end Refusal

/-! ## 2. Lockstep -/

/-- The error for a print that the writer refuses. -/
def outputClosed (line : Nat) : Interrupt := .error ⟨.outputClosed, line⟩

namespace Account

variable {α β : Type}

/-- Nothing is refused, and what is printed is added to the output. -/
structure Taken (s : State) (account : Account α) : Prop where
  unclosed : ∀ line t, account.result ≠ .error (outputClosed line) t
  takes : s.output.TakesAll account.prints
  output : (endState account.result).output = s.output.printAll account.prints

/-- A print is refused: up to there the evaluation is the one without a limit, which goes on with
the text of the print. -/
structure Refused (s : State) (limited unlimited : Account α) (refusal : Refusal) : Prop where
  result : limited.result = .error (outputClosed refusal.line) (refusal.stop s)
  passed : refusal.moment ∈ limited.moments
  moments : limited.moments.map Moment.unlimited <+: unlimited.moments
  takes : s.output.TakesAll limited.prints
  output : refusal.state.output = s.output.printAll limited.prints
  prints : limited.prints ++ [refusal.text] <+: unlimited.prints

/-- Two evaluations from a state, one with a limited writer and the other one without a limit, do
the same until a print is refused. -/
def Lockstep (s : State) (limited unlimited : Account α) : Prop :=
  (unlimited = limited.unlimited ∧ limited.Taken s) ∨
    ∃ refusal, limited.Refused s unlimited refusal

section AndThen

variable {s t : State} {v : α} {limited unlimited : Account α} {f g : α → State → Account β}

theorem Taken.output_of_ok (h : limited.Taken s) (ended : limited.result = .ok v t) :
    t.output = s.output.printAll limited.prints := by
  have output := h.output
  rwa [ended] at output

theorem Taken.andThen_error {interrupt : Interrupt} (h : limited.Taken s)
    (ended : limited.result = .error interrupt t) : (limited.andThen f).Taken s := by
  rw [andThen_of_error ended]
  refine ⟨fun line t' failed => ?_, h.takes, ?_⟩
  · cases failed
    exact h.unclosed line t ended
  · have output := h.output
    rwa [ended] at output

/-- Output that is added to later on. -/
theorem Taken.printAll_append (h : limited.Taken s) (ended : limited.result = .ok v t)
    (texts : List String) :
    t.output.printAll texts = s.output.printAll (limited.prints ++ texts) := by
  rw [h.output_of_ok ended, Output.printAll, Output.printAll, Output.printAll, List.foldl_append]

theorem Taken.takes_append (h : limited.Taken s) (ended : limited.result = .ok v t)
    {texts : List String} (later : t.output.TakesAll texts) :
    s.output.TakesAll (limited.prints ++ texts) :=
  h.takes.append (h.output_of_ok ended ▸ later)

theorem Taken.andThen (h : limited.Taken s) (ended : limited.result = .ok v t)
    (later : (f v t).Taken t) : (limited.andThen f).Taken s := by
  rw [andThen_of_ok ended]
  exact ⟨later.unclosed, h.takes_append ended later.takes,
    later.output.trans (h.printAll_append ended _)⟩

/-- A refusal later on is one in the same place. -/
theorem Taken.andThen_refused {refusal : Refusal} (h : limited.Taken s)
    (ended : limited.result = .ok v t) (place : t.scope = s.scope ∧ t.depth = s.depth)
    (later : (f v t).Refused t (g v t.unlimited) refusal) :
    (limited.andThen f).Refused s (limited.unlimited.andThen g) refusal := by
  have ended' : limited.unlimited.result = .ok v t.unlimited := congrArg unlimitedEnd ended
  rw [andThen_of_ok ended, andThen_of_ok ended']
  refine ⟨?_, List.mem_append_right _ later.passed, ?_, h.takes_append ended later.takes,
    later.output.trans (h.printAll_append ended _), ?_⟩
  · exact later.result.trans (congrArg _ (refusal.stop_congr place.1 place.2))
  · rw [List.map_append]
    exact (List.prefix_append_right_inj _).2 later.moments
  · rw [List.append_assoc]
    exact (List.prefix_append_right_inj _).2 later.prints

/-- A refusal is the end. -/
theorem Refused.andThen {refusal : Refusal} (h : limited.Refused s unlimited refusal) :
    (limited.andThen f).Refused s (unlimited.andThen g) refusal := by
  obtain ⟨moments, prints⟩ := unlimited.prefix_andThen g
  rw [andThen_of_error h.result]
  exact ⟨rfl, h.passed, h.moments.trans moments, h.takes, h.output, h.prints.trans prints⟩

end AndThen

namespace Lockstep

variable {s : State} {limited unlimited : Account α}

/-- Nothing is printed, and the evaluation ends otherwise than with a refused print. -/
theorem silent {moments : List Moment} {result result' : EStateM.Result Interrupt State α}
    (same : result' = unlimitedEnd result)
    (unclosed : ∀ line t, result ≠ .error (outputClosed line) t)
    (output : (endState result).output = s.output) :
    Lockstep s ⟨result, moments, []⟩ ⟨result', moments.map Moment.unlimited, []⟩ := by
  subst same
  exact .inl ⟨rfl, unclosed, Output.takesAll_nil, output⟩

/-- **One evaluation and then another**, if the first one keeps its place. -/
theorem andThen (h : Lockstep s limited unlimited) {f g : α → State → Account β}
    (hf : ∀ v t, limited.result = .ok v t → Lockstep t (f v t) (g v t.unlimited))
    (place : ∀ v t, limited.result = .ok v t → t.scope = s.scope ∧ t.depth = s.depth) :
    Lockstep s (limited.andThen f) (unlimited.andThen g) := by
  rcases h with ⟨rfl, taken⟩ | ⟨refusal, refused⟩
  · cases ended : limited.result with
    | error interrupt t =>
      refine .inl ⟨?_, taken.andThen_error ended⟩
      rw [andThen_of_error ended, andThen_of_error (congrArg unlimitedEnd ended)]
      rfl
    | ok v t =>
      rcases hf v t ended with ⟨same, later⟩ | ⟨refusal, later⟩
      · refine .inl ⟨?_, taken.andThen ended later⟩
        rw [andThen_of_ok ended, andThen_of_ok (congrArg unlimitedEnd ended), same]
        simp only [Account.unlimited, List.map_append]
      · exact .inr ⟨refusal, taken.andThen_refused ended (place v t ended) later⟩
  · exact .inr ⟨refusal, refused.andThen⟩

/-- An evaluation in a frame. -/
theorem inFrame {frame : Frame} {f g : State → Account α}
    (h : ∀ inner, frame.enter s = .ok inner → Lockstep inner (f inner) (g inner.unlimited)) :
    Lockstep s (Account.inFrame frame s f) (Account.inFrame frame s.unlimited g) := by
  have unlimited := frame.enter_unlimited s
  cases entered : frame.enter s with
  | error interrupt =>
    rw [entered] at unlimited
    rw [inFrame_of_error entered, inFrame_of_error unlimited]
    refine silent rfl (fun line t failed => ?_) rfl
    cases failed
    cases frame with
    | same | scope id => cases entered
    | call line' =>
      simp only [Frame.enter] at entered
      split at entered <;> cases entered
  | ok inner =>
    rw [entered] at unlimited
    rw [inFrame_of_ok entered, inFrame_of_ok unlimited]
    have output := Frame.output_enter entered
    rcases h inner entered with ⟨same, taken⟩ | ⟨refusal, refused⟩
    · rw [same]
      refine .inl ⟨?_, fun line t failed => ?_, output ▸ taken.takes, ?_⟩
      · simp only [Account.unlimited, frame.leaveEnd_unlimited]
      · dsimp only at failed
        cases ended : (f inner).result with
        | ok v t' =>
          rw [ended] at failed
          cases failed
        | error interrupt t' =>
          rw [ended] at failed
          cases failed
          exact taken.unclosed line t' ended
      · exact (frame.output_leaveEnd s _).trans (output ▸ taken.output)
    · refine .inr ⟨refusal, ?_, refused.passed, refused.moments, output ▸ refused.takes,
        output ▸ refused.output, refused.prints⟩
      simp only [refused.result, Frame.leaveEnd, refusal.leave_stop entered]

/-- A moment is passed at first. -/
theorem passing (h : Lockstep s limited unlimited) (m : Moment) :
    Lockstep s { limited with moments := m :: limited.moments }
      { unlimited with moments := m.unlimited :: unlimited.moments } := by
  rcases h with ⟨rfl, taken⟩ | ⟨refusal, refused⟩
  · exact .inl ⟨rfl, taken.unclosed, taken.takes, taken.output⟩
  · exact .inr ⟨refusal, refused.result, List.mem_cons_of_mem _ refused.passed,
      (List.prefix_cons_inj _).2 refused.moments, refused.takes, refused.output, refused.prints⟩

end Lockstep

end Account

/-! ## 3. Scripts -/

open Account

/-- The output makes no difference to what an act does, and hardly any to what it answers. -/
theorem Eval.DetachedUpTo.account {α β : Type} {fuel : Nat} {action : Eval β} {next : β → Script α}
    (h : action.DetachedUpTo fun v v' => next v = next v') (s : State) :
    ((Act.plain action).account s.unlimited).andThen (fun v t => (next v).account fuel t) =
      ((Act.plain action).account s).unlimited.andThen fun v t => (next v).account fuel t := by
  obtain ⟨blind, kept⟩ := h.unlimited s
  unfold Act.account Account.unlimited
  simp only [Act.run]
  cases hs : action s with
  | ok v t =>
    rw [hs] at blind kept
    change t.output = _ at kept
    rw [← kept] at blind
    cases hs' : action s.unlimited with
    | ok v' t' =>
      rw [hs'] at blind
      obtain ⟨same, rfl⟩ := blind
      simp only [Account.andThen, unlimitedEnd, same, State.unlimited, List.map_nil]
    | error interrupt t' =>
      rw [hs'] at blind
      exact blind.elim
  | error interrupt t =>
    rw [hs] at blind kept
    change t.output = _ at kept
    rw [← kept] at blind
    cases hs' : action s.unlimited with
    | ok v' t' =>
      rw [hs'] at blind
      exact blind.elim
    | error interrupt' t' =>
      rw [hs'] at blind
      obtain ⟨rfl, rfl⟩ := blind
      simp only [Account.andThen, unlimitedEnd, State.unlimited, List.map_nil]

/-- What gives an answer is in the same place as before. -/
theorem Eval.Keeps.place_eq {α : Type} {x : Eval α} (h : x.Keeps) {s t : State} {v : α}
    (done : x s = .ok v t) : t.scope = s.scope ∧ t.depth = s.depth := by
  have kept := h s
  rw [done] at kept
  exact ⟨kept.scope, kept.depth⟩

/-- A detached script is in lockstep if all fitting tasks are. -/
theorem Script.Detached.lockstep {α : Type} {script : Script α} {calls : Bool} {post : α → Prop}
    {fuel : Nat} (detached : script.Detached calls post) (steady : script.Steady)
    (tasks : ∀ (task : Task) s, task.Fits →
      Lockstep s (task.account fuel s) (task.account fuel s.unlimited))
    (s : State) : Lockstep s (script.account fuel s) (script.account fuel s.unlimited) := by
  induction script generalizing s with
  | done v => exact .silent rfl (fun line t failed => by cases failed) rfl
  | act action next ih =>
    rw [account_act, account_act]
    have place : ∀ v t, (action.account s).result = .ok v t →
        t.scope = s.scope ∧ t.depth = s.depth :=
      fun v t done => steady.1.place_eq done
    cases action with
    | plain action =>
      rw [detached.1.account]
      refine .andThen (.silent rfl ?_ (detached.1.unlimited s).2)
        (fun v t _ => ih v (detached.2 v) (steady.2 v) t) place
      intro line t failed
      exact (detached.1.fails s _ _ failed).2 line rfl
    | opening origin enclosing =>
      have opened : Lockstep s ((Act.opening origin enclosing).account s)
          ((Act.opening origin enclosing).account s.unlimited) :=
        .silent rfl (fun line t failed => by cases failed) rfl
      exact opened.andThen (fun v t _ => ih v (detached v) (steady.2 v) t) place
  | call frame task next ih =>
    rw [account_call, account_call]
    refine .andThen (.inFrame fun inner _ => tasks task inner detached.1)
      (fun v t _ => ih v (detached.2.2 v) (steady v) t) fun v t done => ?_
    rw [result_inFrame] at done
    exact (frame.keeps_around (Task.keeps_run fuel task)).place_eq done

/-! ## 4. Tasks -/

namespace Task

variable {fuel : Nat} {s : State}

/-- What the writer takes is printed with a limit and without. -/
theorem lockstep_printing {v : Value} (line : Nat) (takes : s.output.takes (s.heap.text v) = true) :
    Lockstep s (printing v line s) (printing v line s.unlimited) := by
  have printed : printing v line s =
      ⟨.ok .normal { s with output := s.output.print (s.heap.text v) }, [], [s.heap.text v]⟩ := by
    unfold printing
    rw [if_pos takes, Eval.bind_of_ok (if_pos takes)]
    rfl
  refine .inl ⟨?_, ?_, ?_, ?_⟩
  · rw [printed]
    rfl
  · intro line' t failed
    rw [printed] at failed
    cases failed
  · rw [printed]
    exact Output.takesAll_singleton.2 takes
  · rw [printed]
    rfl

theorem lockstep_print (line : Nat) (e : Expr)
    (h : Lockstep s ((eval e).account fuel s) ((eval e).account fuel s.unlimited)) :
    Lockstep s ((exec (.print line e)).account (fuel + 1) s)
      ((exec (.print line e)).account (fuel + 1) s.unlimited) := by
  rw [account_print, account_print]
  have place : ∀ v t, Eval.eval fuel e s = .ok v t → t.scope = s.scope ∧ t.depth = s.depth :=
    fun v t ended => (Task.keeps_run fuel (eval e)).place_eq ended
  by_cases refused : ∃ v t, Eval.eval fuel e s = .ok v t ∧ t.output.takes (t.heap.text v) = false
  · obtain ⟨v, t, ended, refuses⟩ := refused
    rcases h with ⟨same, taken⟩ | ⟨refusal, refused⟩
    · have ended' : Eval.eval fuel e s.unlimited = .ok v t.unlimited := by
        have results := congrArg Account.result same
        exact results.trans (congrArg unlimitedEnd ended)
      have output : t.output = s.output.printAll ((eval e).prints fuel s) :=
        taken.output_of_ok ended
      obtain ⟨scope, depth⟩ := place v t ended
      have stops : printing v line t =
          ⟨.error (outputClosed line) { t with output := t.output.close }, [], []⟩ := by
        unfold printing
        rw [if_neg (ne_true_of_eq_false refuses),
          Eval.bind_of_error (if_neg (ne_true_of_eq_false refuses))]
        rfl
      rw [same, andThen_of_ok ended, andThen_of_ok (congrArg unlimitedEnd ended), stops]
      refine .inr ⟨⟨fuel, line, e, s, v, t, ended, ended', refuses⟩, ?_, ?_, ?_, ?_, ?_, ?_⟩
      · simp only [Refusal.stop, ← scope, ← depth]
      · exact List.mem_append_left _ List.mem_cons_self
      · simp only [List.append_nil, List.map_cons]
        exact List.prefix_append _ _
      · simpa only [List.append_nil] using taken.takes
      · simp only [List.append_nil]
        exact output
      · simp only [List.append_nil]
        exact List.prefix_refl _
    · cases ended.symm.trans refused.result
  · refine (h.passing _).andThen (fun v t ended => ?_) place
    exact lockstep_printing line
      (Bool.of_not_eq_false fun refuses => refused ⟨v, t, ended, refuses⟩)

/-- **Tasks do the same with a limited writer as with one that has no limit**, up to the first print
that is refused. -/
theorem lockstep (fuel : Nat) {task : Task} (fits : task.Fits) (s : State) :
    Lockstep s (task.account fuel s) (task.account fuel s.unlimited) := by
  induction fuel generalizing task s with
  | zero =>
    unfold account
    rw [run_zero]
    exact .silent rfl (fun line t failed => by cases failed) rfl
  | succ fuel ih =>
    by_cases prints : ∃ line e, task = exec (.print line e)
    · obtain ⟨line, e, rfl⟩ := prints
      exact lockstep_print line e (@ih (eval e) trivial s)
    · have silent := fun line e same => prints ⟨line, e, same⟩
      rw [account_succ fuel silent, account_succ fuel silent]
      have inside := (detached_script fits silent).lockstep (steady_script task)
        (fun task s fits => ih fits s) s
      exact inside.passing (.begins (fuel + 1) task s)

end Task

end Lox
