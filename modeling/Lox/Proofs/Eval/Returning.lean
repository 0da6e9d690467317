/-
# A `return` ends the statements around it

A statement is executed as a part of others: of a block, a branch, a loop, or the body of a function
(`Moment.Part`).  If the inner one ends with a `return`, so does the outer one, at once and with the
same value; so do all statements around it up to the body of a function (`Moment.Executes.returns`),
which gives the value to its call.

Other tasks do not execute statements themselves, but only by running a closure.  So if a statement
follows from a task, it is a part of the task, or there is the call of a function in between of
whose body it is a part (`Moment.executes_or_calls`).
-/
import Lox.Proofs.Eval.Opening
import Lox.Proofs.Eval.Quiet

namespace Lox

/-! ## 1. Scripts -/

namespace Script

variable {fuel fuel' : Nat} {α : Type} {script : Script α} {s t : State} {m : Moment} {inner : Task}

/-- A task that begins in a script begins behind the first act. -/
theorem Passes.of_act {β : Type} {action : Act β} {next : β → Script α}
    (h : (Script.act action next).Passes fuel s (.begins fuel' inner t)) :
    ∃ v s', action.run s = .ok v s' ∧ (next v).Passes fuel s' (.begins fuel' inner t) := by
  cases h with
  | act done later => exact ⟨_, _, done, later⟩

/-- A task that begins in a script is the first one, or begins behind it. -/
theorem Passes.of_call {frame : Frame} {task : Task} {next : task.Answer → Script α}
    (h : (Script.call frame task next).Passes fuel s (.begins fuel' inner t)) :
    (frame.enter s = .ok t ∧ fuel' = fuel ∧ inner = task) ∨
      ∃ v s', frame.around (task.run fuel) s = .ok v s' ∧
        (next v).Passes fuel s' (.begins fuel' inner t) := by
  cases h with
  | begins entered => exact Or.inl ⟨entered, rfl, rfl⟩
  | call done later => exact Or.inr ⟨_, _, done, later⟩

/-- A quiet script begins no statement. -/
theorem Quiet.passes (h : script.Quiet) (passes : script.Passes fuel s m)
    (begins : m = .begins fuel' inner t) : inner.returned? = none := by
  induction passes with
  | opening => cases begins
  | @act β action next _ _ answer m done later ih =>
    cases action with
    | plain action => exact ih (h.2 answer) begins
    | opening origin enclosing => exact ih (h answer) begins
  | begins entered =>
    cases begins
    exact h.1
  | call done later ih => exact ih (h.2 _) begins

/-- A script that forwards begins parts only, and ends when one of them returns. -/
theorem Forwards.passes {part : Task → Prop} {how : Value → α} (h : script.Forwards part how)
    (passes : script.Passes fuel s m) (begins : m = .begins fuel' inner t)
    {returned : Value → inner.Answer} (statement : inner.returned? = some returned) :
    part inner ∧ ∀ v t', inner.run fuel' t = .ok (returned v) t' →
      ∃ scope, script.run (Task.run fuel) s = .ok (how v) { t' with scope := scope } := by
  induction passes with
  | opening => cases begins
  | @act β action next s s' answer m done later ih =>
    have rest : (next answer).Forwards part how := by
      cases action with
      | plain action => exact h.2 answer
      | opening origin enclosing => exact h answer
    obtain ⟨hpart, ends⟩ := ih rest begins
    refine ⟨hpart, fun v t' ran => ?_⟩
    obtain ⟨scope, ran'⟩ := ends v t' ran
    exact ⟨scope, (Eval.bind_of_ok done _).trans ran'⟩
  | @begins frame task next s inner' entered =>
    cases begins
    obtain ⟨hpart, hframe, done⟩ := h.1 returned statement
    refine ⟨hpart, fun v t' ran => ?_⟩
    have around : frame.around (inner.run fuel) s = .ok (returned v) (frame.leave s t') := by
      rw [Frame.around_eq, entered]
      simp only [ran]
    have ended : (call frame inner next).run (Task.run fuel) s =
        .ok (how v) (frame.leave s t') := by
      rw [Script.run, Eval.bind_of_ok around, done]
      rfl
    cases frame with
    | same => exact ⟨t'.scope, ended⟩
    | scope id => exact ⟨s.scope, ended⟩
    | call line => cases hframe
  | @call frame task next s s' answer m done later ih =>
    obtain ⟨hpart, ends⟩ := ih (h.2 answer) begins
    refine ⟨hpart, fun v t' ran => ?_⟩
    obtain ⟨scope, ran'⟩ := ends v t' ran
    exact ⟨scope, (Eval.bind_of_ok done _).trans ran'⟩

end Script

/-- A task that looks for a payload begins no other one. -/
theorem Task.LooksForPayload.begins_nothing {fuel fuel' : Nat} {task inner : Task} {s t : State}
    (h : task.LooksForPayload) : ¬ task.script.Passes fuel s (.begins fuel' inner t) := by
  intro passes
  cases task with
  | applyMethod method arguments line =>
    obtain ⟨receiver, method⟩ := method
    cases method with
    | builtin method =>
      obtain ⟨_, _, _, later⟩ := passes.of_act
      cases later
    | declared closure => cases h
  | cursorHasItems cursor line | cursorCurrent cursor line | cursorAdvance cursor line =>
    cases cursor with
    | direct id =>
      obtain ⟨_, _, _, later⟩ := passes.of_act
      cases later
    | protocol iterator => cases h
  | _ => cases h

/-! ## 2. Parts of statements -/

/-- A task ends with a `return`. -/
def Task.Returns (fuel : Nat) (task : Task) (s : State) (v : Value) (s' : State) : Prop :=
  ∃ how, task.returned? = some how ∧ task.run fuel s = .ok (how v) s'

/-- A task leaves the current scope as it was. -/
theorem Task.Returns.scope {fuel : Nat} {task : Task} {s s' : State} {v : Value}
    (h : task.Returns fuel s v s') : s'.scope = s.scope := by
  obtain ⟨how, -, ran⟩ := h
  have kept := task.keeps_run fuel s
  rw [ran] at kept
  exact kept.scope

namespace Moment

/-- A task begins that executes statements. -/
def IsStatement : Moment → Prop
  | .begins _ task _ => task.returned?.isSome
  | .opens .. => False

/-- What begins ends with a `return`. -/
def Returns (v : Value) (s' : State) : Moment → Prop
  | .begins fuel task s => task.Returns fuel s v s'
  | .opens .. => False

/-- A statement stands in what is executed. -/
def Holds (st : Stmt) : Moment → Prop
  | .begins _ task _ => task.Holds st
  | .opens .. => False

/-- A statement is executed that is a part of another one. -/
structure Part (outer inner : Moment) : Prop where
  statement : outer.IsStatement
  part : inner.IsStatement
  next : outer.Next inner

/-- A statement is executed that is a part of another one, or a part of a part. -/
abbrev Executes : Moment → Moment → Prop := Relation.ReflTransGen Part

variable {m m' outer inner : Moment} {v : Value} {s' : State} {st : Stmt}

/-- If a part returns then so does the whole, at once. -/
theorem Part.returns (h : outer.Part inner) (returns : inner.Returns v s') :
    outer.Returns v { s' with scope := outer.state.scope } := by
  obtain ⟨statement, -, ⟨passes⟩⟩ := h
  obtain ⟨how, hhow⟩ := Option.isSome_iff_exists.1 statement
  cases inner with
  | opens origin t => cases returns
  | begins fuel' part t =>
    obtain ⟨returned, hreturned, ran⟩ := returns
    obtain ⟨-, ends⟩ := (Task.forwards_script hhow).passes passes rfl hreturned
    obtain ⟨scope, ran'⟩ := ends v s' ran
    have whole : Task.Returns _ _ _ v _ := ⟨how, hhow, (congrFun (Task.run_succ _ _) _).trans ran'⟩
    obtain rfl := whole.scope
    exact whole

/-- What stands in a part stands in the whole. -/
theorem Part.holds (h : outer.Part inner) (holds : inner.Holds st) : outer.Holds st := by
  obtain ⟨statement, part, ⟨passes⟩⟩ := h
  obtain ⟨how, hhow⟩ := Option.isSome_iff_exists.1 statement
  cases inner with
  | opens origin t => cases holds
  | begins fuel' inner t =>
    obtain ⟨returned, hreturned⟩ := Option.isSome_iff_exists.1 part
    exact ((Task.forwards_script hhow).passes passes rfl hreturned).1 st holds

/-- **A `return` ends every statement around it**, with its value and in the state behind it. -/
theorem Executes.returns (h : m.Executes m') (returns : m'.Returns v s') :
    m.Returns v { s' with scope := m.state.scope } := by
  induction h using Relation.ReflTransGen.head_induction_on with
  | refl =>
    cases m' with
    | opens origin t => cases returns
    | begins fuel task t =>
      have same : s'.scope = t.scope := Task.Returns.scope returns
      rw [state, ← same]
      exact returns
  | head part _ ih =>
    have whole := part.returns ih
    exact whole

theorem Executes.holds (h : m.Executes m') (holds : m'.Holds st) : m.Holds st := by
  induction h using Relation.ReflTransGen.head_induction_on with
  | refl => exact holds
  | head part _ ih => exact part.holds ih

/-! ## 3. Calls of functions -/

/-- A statement is executed as a part of the body of a function that is called. -/
inductive Catches : Moment → Moment → Prop where
  | mk {n : Nat} {closure : Closure} {arguments : List Value} {s inner : State} {m : Moment}
      (next : Next (.begins (n + 1) (.applyClosure closure arguments) s)
        (.begins n (.execAll closure.declaration.body) inner))
      (executes : Executes (.begins n (.execAll closure.declaration.body) inner) m) :
      Catches (.begins (n + 1) (.applyClosure closure arguments) s) m

theorem Catches.tail (h : m.Catches outer) (part : outer.Part inner) : m.Catches inner := by
  cases h with
  | mk next executes => exact ⟨next, executes.tail part⟩

/-- What a call of a closure does after its body. -/
theorem next_applyClosure {n k : Nat} {closure : Closure} {arguments : List Value} {s t : State}
    {task : Task} (h : Next (.begins (n + 1) (.applyClosure closure arguments) s) (.begins k task t)) :
    k = n ∧ task = .execAll closure.declaration.body ∧
      ∀ completion t', Eval.execAll n closure.declaration.body t = .ok completion t' →
        Eval.applyClosure (n + 1) closure arguments s =
          Eval.callResult closure completion { t' with scope := s.scope } := by
  obtain ⟨passes⟩ := h
  obtain ⟨scope, s₁, opened, later⟩ := passes.of_act
  obtain ⟨_, s₂, defined, later⟩ := later.of_act
  change Eval.newScope closure.scope s = _ at opened
  change Eval.defineAll scope closure.declaration.params arguments s₁ = _ at defined
  rcases later.of_call with ⟨entered, rfl, rfl⟩ | ⟨completion, s₃, -, later⟩
  · refine ⟨rfl, rfl, fun completion t' ran => ?_⟩
    have placed : s₂.scope = s.scope := by
      have kept := Eval.Keeps.laws.defineAll scope closure.declaration.params arguments s₁
      rw [defined] at kept
      cases opened
      exact kept.scope
    cases entered
    have around : Eval.within scope (Eval.execAll k closure.declaration.body) s₂ =
        .ok completion { t' with scope := s₂.scope } := by
      unfold Eval.within
      simp only [ran]
    rw [Eval.applyClosure, Eval.bind_of_ok opened, Eval.bind_of_ok defined, Eval.bind_of_ok around,
      placed]
  · obtain ⟨_, _, _, later⟩ := later.of_act
    cases later

/-- If a statement follows from a task, it is a part of the task, or of the body of a function that
is called in between. -/
theorem executes_or_calls (reaches : m.Reaches m') (statement : m'.IsStatement) :
    m.Executes m' ∨ ∃ call, m.Reaches call ∧ call.Catches m' := by
  induction reaches with
  | refl => exact Or.inl .refl
  | @tail mid last before next ih =>
    cases last with
    | opens origin t => cases statement
    | begins k inner t =>
      obtain ⟨returned, hreturned⟩ := Option.isSome_iff_exists.1 statement
      cases next with
      | @mk fuel task s _ passes =>
        cases outer : task.returned? with
        | some how =>
          have part : Part (.begins (fuel + 1) task s) (.begins k inner t) :=
            ⟨Option.isSome_iff_exists.2 ⟨how, outer⟩, statement, .mk passes⟩
          rcases ih part.statement with executes | ⟨call, reached, catches⟩
          · exact Or.inl (executes.tail part)
          · exact Or.inr ⟨call, reached, catches.tail part⟩
        | none =>
          by_cases closed : ∃ closure arguments, task = .applyClosure closure arguments
          · obtain ⟨closure, arguments, rfl⟩ := closed
            obtain ⟨rfl, rfl, -⟩ := next_applyClosure (.mk passes)
            exact Or.inr ⟨_, before, .mk (.mk passes) .refl⟩
          · by_cases payload : task.LooksForPayload
            · exact absurd passes payload.begins_nothing
            · have quiet := Task.quiet_script outer (fun closure arguments same =>
                closed ⟨closure, arguments, same⟩) payload
              cases (quiet.passes passes rfl).symm.trans hreturned

end Moment

end Lox
