/-
# Evaluation in which bare blocks open no scope

`Bareness.run` carries out tasks as `Task.run` does, but for the bare blocks, whose statements are
executed in the scope around the block.  The fuel for everything is the same.

With `Bareness.turns` a `for` loop is run as it is written (`ForLoop.run_stmt`): `ForLoop.direct`
executes the initializer once in a fresh scope, and then, as long as the condition is true, the body
and behind it the increment, all in that one scope.
-/
import Lox.Proofs.Eval.Script
import Lox.Proofs.Scoping.Bare

namespace Lox

open Script

/-! ## 1. Tasks and programs -/

namespace Bareness

variable (b : Bareness)

/-- What a task does, if bare blocks open no scope. -/
def script : (task : Task) → Script task.Answer
  | .exec (.block body) =>
    if b.bare body then perform (.execAll body) else Task.execScript (.block body)
  | task => task.script

/-- Carries out a task. -/
def run : (fuel : Nat) → (task : Task) → Eval task.Answer
  | 0, _ => Eval.outOfFuel
  | fuel + 1, task => (b.script task).run (run fuel)

/-- Executes a program. -/
def runProgram (fuel : Nat) : List Stmt → Eval Unit
  | [] => return ()
  | s :: rest => do
    match ← b.run fuel (.exec s) with
    | .normal => runProgram fuel rest
    | .returned _ => return ()

variable {b} {fuel : Nat}

theorem run_block {body : List Stmt} (bare : b.bare body = true) :
    b.run (fuel + 1) (.exec (.block body)) = b.run fuel (.execAll body) := by
  simp only [run, script, bare, if_true]
  exact run_perform _ _

theorem run_block_of_not {body : List Stmt} (kept : b.bare body = false) :
    b.run (fuel + 1) (.exec (.block body)) =
      Eval.childScope >>= fun scope => Eval.within scope (b.run fuel (.execAll body)) := by
  simp [run, script, kept, Task.execScript]

theorem run_expression (e : Expr) :
    b.run (fuel + 1) (.exec (.expression e)) =
      do let _ ← b.run fuel (.eval e); return .normal := by
  simp [run, script, Task.script, Task.execScript]

theorem run_nil : b.run (fuel + 1) (.execAll []) = return .normal := rfl

theorem run_cons (s : Stmt) (rest : List Stmt) :
    b.run (fuel + 1) (.execAll (s :: rest)) = do
      match ← b.run fuel (.exec s) with
      | .normal => b.run fuel (.execAll rest)
      | .returned value => return .returned value := by
  simp only [run, script, Task.script, run_bind, run_perform]
  refine bind_congr fun completion => ?_
  cases completion <;> simp

theorem run_while (condition : Expr) (body : Stmt) :
    b.run (fuel + 1) (.exec (.whileLoop condition body)) =
      b.run fuel (.whileLoop condition body) := by
  simp only [run, script, Task.script, Task.execScript]
  exact run_perform _ _

theorem run_whileLoop (condition : Expr) (body : Stmt) :
    b.run (fuel + 1) (.whileLoop condition body) = do
      if (← b.run fuel (.eval condition)).isTruthy then
        match ← b.run fuel (.exec body) with
        | .normal => b.run fuel (.whileLoop condition body)
        | .returned value => return .returned value
      else return .normal := by
  simp only [run, script, Task.script, run_bind, run_perform]
  refine bind_congr fun value => ?_
  split
  · simp only [run_bind, run_perform]
    refine bind_congr fun completion => ?_
    cases completion <;> simp
  · rfl

end Bareness

/-! ## 2. `for` loops as they are written -/

namespace ForLoop

variable (loop : ForLoop) (perform : (fuel : Nat) → (task : Task) → Eval task.Answer)

/-- One turn: the body, and the increment if the body has come to its end.  The fuel of each is what
is left behind the calls down to it. -/
def directTurn (fuel : Nat) : Eval Completion :=
  match loop.increment with
  | none => perform fuel (.exec loop.body)
  | some step => do
    match ← perform (fuel - 2) (.exec loop.body) with
    | .normal => do
      let _ ← perform (fuel - 4) (.eval step)
      return .normal
    | .returned value => return .returned value

/-- Turn after turn as long as the condition is true, up to one that returns. -/
def directTurns : (fuel : Nat) → Eval Completion
  | 0 => Eval.outOfFuel
  | fuel + 1 => do
    if (← perform fuel (.eval loop.condition)).isTruthy then
      match ← loop.directTurn perform fuel with
      | .normal => directTurns fuel
      | .returned value => return .returned value
    else return .normal

/-- The loop as it is written: the initializer, if there is one, once in a fresh scope, and in this
scope all the turns. -/
def direct : (fuel : Nat) → Eval Completion
  | 0 => Eval.outOfFuel
  | fuel + 1 =>
    match loop.initializer with
    | none => loop.directTurns perform fuel
    | some first => do
      Eval.within (← Eval.childScope) do
        match ← perform (fuel - 1) (.exec first) with
        | .normal => loop.directTurns perform (fuel - 3)
        | .returned value => return .returned value

/-! ## 3. They are run as they are written -/

open Bareness

variable {loop} (plain : loop.body.declared? = none)

include plain

theorem run_turn (fuel : Nat) :
    turns.run fuel (.exec loop.turn) = loop.directTurn turns.run fuel := by
  unfold turn directTurn
  cases loop.increment with
  | none => rfl
  | some step =>
    have bare : turns.bare [loop.body, .expression step] = true :=
      Option.isNone_iff_eq_none.2 plain
    obtain _ | _ | _ | fuel := fuel
    · rfl
    · exact run_block bare
    · exact (run_block bare).trans (run_cons _ _)
    · rw [run_block bare, run_cons]
      refine bind_congr fun completion => ?_
      cases completion with
      | returned value => rfl
      | normal =>
        -- behind the body there is only the increment
        dsimp only
        rw [run_cons]
        obtain _ | fuel := fuel
        · rfl
        · rw [run_expression, bind_assoc]
          simp only [pure_bind]
          exact bind_congr fun _ => run_nil

theorem run_turns (fuel : Nat) :
    turns.run fuel (.whileLoop loop.condition loop.turn) = loop.directTurns turns.run fuel := by
  induction fuel with
  | zero => rfl
  | succ fuel ih =>
    rw [run_whileLoop, run_turn plain, directTurns, ih]
    refine bind_congr fun value => ?_
    split
    · refine bind_congr fun completion => ?_
      cases completion <;> rfl
    · rfl

/-- **A `for` loop is run as it is written**, if the turns of such loops have no scope of their
own. -/
theorem run_stmt (fuel : Nat) :
    turns.run fuel (.exec loop.stmt) = loop.direct turns.run fuel := by
  obtain _ | fuel := fuel
  · rfl
  unfold direct
  cases begins : loop.initializer with
  | none =>
    have same : loop.stmt = .whileLoop loop.condition loop.turn := by
      rw [stmt, begins]
      rfl
    rw [same, run_while, run_turns plain]
  | some first =>
    have same : loop.stmt = .block [first, .whileLoop loop.condition loop.turn] := by
      rw [stmt, begins]
      rfl
    have kept : turns.bare [first, .whileLoop loop.condition loop.turn] = false := rfl
    rw [same, run_block_of_not kept]
    refine bind_congr fun scope => congrArg (Eval.within scope) ?_
    obtain _ | fuel := fuel
    · rfl
    rw [run_cons]
    refine bind_congr fun completion => ?_
    cases completion with
    | returned value => rfl
    | normal =>
      obtain _ | _ | fuel := fuel
      · rfl
      · rfl
      · dsimp only
        rw [run_cons, run_while, run_turns plain]
        refine (bind_congr fun completion => ?_).trans (bind_pure _)
        cases completion <;> rfl

end ForLoop

end Lox
