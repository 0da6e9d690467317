/-
# Calls are nested up to the limit and no further

Every text of a session begins with no call in progress, whatever became of the texts before it.  So
the number of calls that the state counts is that of the activations on the way from a statement of
the text, and the limit is on the nesting of its own calls.

Main statement: `calls_nest_to_the_limit`.
-/
import Mathlib
import Lox.Proofs.Eval.Nesting
import Lox.Proofs.Eval.Trace
import Lox.Proofs.Session.Texts

namespace Lox

/-- Executes a program, however many calls are in progress. -/
def Eval.runFree (fuel : Nat) (program : List Stmt) : Eval Unit :=
  (Script.ofProgram program).runFree (Task.runFree fuel)

/-- How deep calls are nested in a program if there is no limit. -/
def Eval.nesting (fuel : Nat) (program : List Stmt) (s : State) : Nat :=
  (Script.ofProgram program).nesting (Task.runFree fuel) (Task.nesting fuel) s

/-! ## 1. Programs -/

section Program

variable {fuel : Nat} {program : List Stmt} {s : State}

theorem Moment.Begins.depth {m : Moment} (h : Moment.Begins fuel program s m) :
    m.state.depth = s.depth := by
  induction h with
  | here => rfl
  | later done _ ih => exact ih.trans ((Task.keeps_run _ (.exec _)).depth_eq done)

theorem Eval.run_overflow_iff {line : Nat} :
    (∃ s', Eval.run fuel program s = .error (overflow line) s') ↔
      ∃ m, Moment.During fuel program s m ∧ m.Overflows line := by
  rw [← Script.run_ofProgram, Script.overflow_iff (Script.detached_ofProgram program).fitting]
  simp only [Script.leads_ofProgram]

theorem Eval.run_limits (le : s.depth ≤ maxDepth) :
    Limits (Eval.run fuel program) (Eval.runFree fuel program) (Eval.nesting fuel program s) s := by
  rw [← Script.run_ofProgram]
  exact Script.Steady.limits (Script.acts_ofProgram program) (Task.keeps_run fuel)
    (fun task s le => Task.limits fuel task le) le

theorem Eval.free_not_overflow (line : Nat) (s' : State) :
    Eval.runFree fuel program s ≠ .error (overflow line) s' :=
  (Script.detached_ofProgram program).fitting.free_not_overflow fuel line s s'

end Program

/-! ## 2. Sessions -/

/-- **Calls are nested up to the limit and no further**, in every run of a text of a session.

The number of calls in progress that the state counts is that of the activations in progress, at
every moment, and it is never above the limit (which is 1024).  Of a call it is checked first that
the value can be called, then the number of arguments, and then the number of calls: the call itself
fails with a stack overflow just if that is the limit, and otherwise the activation begins.  A text
ends with a stack overflow on a line just if it comes to such a call on this line.  That is so just
if the calls are nested deeper than the limit when there is none, and as long as they are not the
text does what it does without a limit. -/
theorem calls_nest_to_the_limit (input : Input) (room : Option Nat) (clock : Nat)
    (commands : List Command) (fuel : Nat) (source : String) (program : List Stmt)
    (resolution : Resolution)
    (accepted : ((Course.new input room clock).follow commands).session.accepted? source =
      some (program, resolution)) :
    let session := ((Course.new input room clock).follow commands).session
    let start := session.ready resolution
    (∀ m, Moment.During fuel program start m →
      ∃ first stack, Moment.Begins fuel program start first ∧ first.Within stack m) ∧
    (∀ first stack m, Moment.Begins fuel program start first → first.Within stack m →
      m.state.depth = stack.countP Task.isActivation ∧ m.state.depth ≤ maxDepth) ∧
    (∀ n callee arguments line s,
      Moment.During fuel program start (.begins (n + 1) (.call callee arguments line) s) →
      ((∀ callable, callee ≠ .callable callable) →
        Eval.call (n + 1) callee arguments line s = .error (.error ⟨.notCallable, line⟩) s) ∧
      ∀ callable, callee = .callable callable →
        (callable.arity ≠ arguments.length →
          Eval.call (n + 1) callee arguments line s =
            .error (.error ⟨.arity callable.arity arguments.length, line⟩) s) ∧
        ((Eval.call (n + 1) callee arguments line s = .error (.error ⟨.stackOverflow, line⟩) s ∧
            ∀ m, ¬ Moment.Next (.begins (n + 1) (.call callee arguments line) s) m) ↔
          callable.arity = arguments.length ∧ s.depth = maxDepth) ∧
        (Moment.Next (.begins (n + 1) (.call callee arguments line) s)
            (.begins n (.apply callable arguments line) { s with depth := s.depth + 1 }) ↔
          callable.arity = arguments.length ∧ s.depth < maxDepth)) ∧
    (∀ line, (session.runWith fuel source).1 = .failed (.runtimeError ⟨.stackOverflow, line⟩) ↔
      ∃ n callable arguments s, callable.arity = arguments.length ∧ s.depth = maxDepth ∧
        Moment.During fuel program start
          (.begins (n + 1) (.call (.callable callable) arguments line) s)) ∧
    ((∃ line, (session.runWith fuel source).1 =
        .failed (.runtimeError ⟨.stackOverflow, line⟩)) ↔
      maxDepth < Eval.nesting fuel program start) ∧
    (Eval.nesting fuel program start ≤ maxDepth →
      (session.runWith fuel source).1 = .ofRun (Eval.runFree fuel program start) ∧
        (session.runWith fuel source).2.state = endState (Eval.runFree fuel program start)) := by
  intro session start
  have zero : start.depth = 0 := (Course.place input room clock commands).2
  have ran := Session.runWith_eq fuel accepted
  have ways : ∀ m, Moment.During fuel program start m →
      ∃ first stack, Moment.Begins fuel program start first ∧ first.Within stack m := by
    rintro m ⟨first, begins, reaches⟩
    obtain ⟨stack, within⟩ := Moment.exists_within reaches
    exact ⟨first, stack, begins, within⟩
  have counted : ∀ first stack m, Moment.Begins fuel program start first → first.Within stack m →
      m.state.depth = stack.countP Task.isActivation ∧ m.state.depth ≤ maxDepth := by
    intro first stack m begins within
    obtain ⟨counted, bounded⟩ := within.depth (Moment.During.fits ⟨first, begins, .refl⟩)
    rw [begins.depth, zero] at counted bounded
    exact ⟨counted.trans (Nat.zero_add _), bounded (Nat.zero_le _)⟩
  have bounded : ∀ m, Moment.During fuel program start m → m.state.depth ≤ maxDepth := by
    intro m during
    obtain ⟨first, stack, begins, within⟩ := ways m during
    exact (counted first stack m begins within).2
  have overflows : ∀ line, (session.runWith fuel source).1 =
      .failed (.runtimeError ⟨.stackOverflow, line⟩) ↔
        ∃ s', Eval.run fuel program start = .error (overflow line) s' := by
    intro line
    rw [ran]
    exact Outcome.ofRun_eq_failed
  have limits : Eval.Limits (Eval.run fuel program) (Eval.runFree fuel program)
      (Eval.nesting fuel program start) start :=
    Eval.run_limits (Nat.le_trans (Nat.le_of_eq zero) (Nat.zero_le _))
  unfold Eval.Limits at limits
  rw [zero, Nat.zero_add] at limits
  refine ⟨ways, counted, fun n callee arguments line s during => ?_, fun line => ?_, ?_, ?_⟩
  · refine ⟨Eval.call_notCallable, ?_⟩
    rintro callable rfl
    exact ⟨Eval.call_arity, Eval.call_overflows_iff (bounded _ during), Moment.next_call_iff⟩
  · rw [overflows, Eval.run_overflow_iff]
    constructor
    · rintro ⟨m, during, full⟩
      unfold Moment.Overflows at full
      split at full
      · obtain ⟨arity, most, rfl⟩ := full
        exact ⟨_, _, _, _, arity, Nat.le_antisymm (bounded _ during) most, during⟩
      · exact full.elim
    · rintro ⟨n, callable, arguments, s, arity, full, during⟩
      exact ⟨_, during, arity, Nat.le_of_eq full.symm, rfl⟩
  · simp only [overflows]
    rcases limits with ⟨fits, same⟩ | ⟨deep, line, s', failed⟩
    · rw [same]
      refine ⟨fun ⟨line, s', failed⟩ => ?_, fun deep => absurd fits (Nat.not_le_of_lt deep)⟩
      exact absurd failed (Eval.free_not_overflow line s')
    · exact ⟨fun _ => deep, fun _ => ⟨line, s', failed⟩⟩
  · intro fits
    rcases limits with ⟨-, same⟩ | ⟨deep, -⟩
    · rw [ran, same]
      exact ⟨rfl, rfl⟩
    · exact absurd fits (Nat.not_le_of_lt deep)

namespace Shallow

/-- An initializer calls a function, and then something is called that cannot be. -/
def text : String := "fun f() \x7b\x7d class A \x7b init() \x7b f(); \x7d \x7d A(); nil();"

/-- What the text says. -/
def program : List Stmt :=
  [.funDecl ⟨⟨"f", 1⟩, [], []⟩,
    .classDecl ⟨"A", 1⟩ none
      [⟨⟨"init", 1⟩, [], [.expression (.call (.variable ⟨0, ⟨"f", 1⟩⟩) [] 1)]⟩],
    .expression (.call (.variable ⟨1, ⟨"A", 1⟩⟩) [] 1),
    .expression (.call (.literal .nil) [] 1)]

/-- A new session. -/
abbrev session : Session := .new ⟨[], true⟩ none 0

/-- Whether a function is being called. -/
def isActivation : Moment → Bool
  | .begins _ (.apply (.closure _) _ _) _ => true
  | _ => false

/-- Whether something is called that cannot be. -/
def isFailure : Moment → Bool
  | .begins (_ + 1) (.call .nil _ _) _ => true
  | _ => false

/-- Whether calls are nested twice: that of the class with its initializer, and that of the
function. -/
def nestsTwice : Bool :=
  match resolve program with
  | .error _ => false
  | .ok resolution => Eval.nesting 40 program (session.ready resolution) == 2

end Shallow

/-- Two calls are in progress where the function begins, `nil` is no callable, and so the text does
what it does without a limit. -/
theorem class_nests_with_initializer :
    ∃ resolution, Shallow.session.accepted? Shallow.text = some (Shallow.program, resolution) ∧
      let start := Shallow.session.ready resolution
      (∃ n closure arguments line s first stack,
        Moment.Begins 40 Shallow.program start first ∧
        first.Within stack (.begins n (.apply (.closure closure) arguments line) s) ∧
        s.depth = stack.countP Task.isActivation) ∧
      (∃ n arguments line s,
        Moment.During 40 Shallow.program start (.begins (n + 1) (.call .nil arguments line) s) ∧
        Eval.call (n + 1) .nil arguments line s = .error (.error ⟨.notCallable, line⟩) s) ∧
      Eval.nesting 40 Shallow.program start = 2 ∧
      (∀ line, (Shallow.session.runWith 40 Shallow.text).1 ≠
        .failed (.runtimeError ⟨.stackOverflow, line⟩)) ∧
      (Shallow.session.runWith 40 Shallow.text).1 =
        .ofRun (Eval.runFree 40 Shallow.program start) := by
  have read : (Shallow.session.accepted? Shallow.text).map Prod.fst = some Shallow.program := by cbv
  obtain ⟨⟨program, resolution⟩, accepted, same⟩ := Option.map_eq_some_iff.1 read
  obtain rfl : program = Shallow.program := same
  obtain ⟨ways, counted, calls, -, overflows, without⟩ :=
    calls_nest_to_the_limit ⟨[], true⟩ none 0 [] 40 Shallow.text Shallow.program resolution accepted
  obtain ⟨_, -, -, -, resolved⟩ := Session.accepted?_eq_some accepted
  have during : ∀ p : Moment → Bool, (Shallow.session.trace 40 Shallow.program).any p = true →
      ∃ m, Moment.During 40 Shallow.program (Shallow.session.ready resolution) m ∧ p m = true := by
    intro p found
    obtain ⟨m, hm, hp⟩ := List.any_eq_true.1 found
    rw [Session.trace, resolved] at hm
    exact ⟨m, Moment.during_of_mem_trace hm, hp⟩
  have twice : Shallow.nestsTwice = true := by decide +kernel
  rw [Shallow.nestsTwice, resolved] at twice
  replace twice : Eval.nesting 40 Shallow.program (Shallow.session.ready resolution) = 2 :=
    eq_of_beq twice
  have fits : ¬ maxDepth < Eval.nesting 40 Shallow.program (Shallow.session.ready resolution) := by
    rw [twice]
    decide
  refine ⟨resolution, accepted, ?_, ?_, twice, ?_, (without (Nat.le_of_not_lt fits)).1⟩
  · obtain ⟨m, hm, hp⟩ := during Shallow.isActivation (by decide +kernel)
    unfold Shallow.isActivation at hp
    split at hp
    · obtain ⟨first, stack, begins, within⟩ := ways _ hm
      exact ⟨_, _, _, _, _, first, stack, begins, within, (counted _ _ _ begins within).1⟩
    · cases hp
  · obtain ⟨m, hm, hp⟩ := during Shallow.isFailure (by decide +kernel)
    unfold Shallow.isFailure at hp
    split at hp
    · exact ⟨_, _, _, _, hm, (calls _ _ _ _ _ hm).1 fun _ same => by cases same⟩
    · cases hp
  · exact fun line failed => fits (overflows.1 ⟨line, failed⟩)

end Lox
