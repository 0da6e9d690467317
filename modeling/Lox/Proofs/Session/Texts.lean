/-
# The runs of the texts of a session

A program is carried out like a task: it has a script, which executes its statements one after the
other (`Script.ofProgram`), so that what is shown of scripts holds of programs.

What happens in a session happens in the run of one of its texts, which begins in the state that the
commands before it have led to (`Course.during`): in the scope of the globals, with no call in
progress (`Course.place`).  How a text that is accepted ends is how its program does
(`Outcome.ofRun`).
-/
import Mathlib.Data.List.Induction
import Lox.Proofs.Eval.Conduct
import Lox.Proofs.Eval.Opening

namespace Lox

/-! ## 1. Programs as scripts -/

/-- What a program does. -/
def Script.ofProgram : List Stmt → Script Unit
  | [] => return ()
  | first :: rest => do
    match ← perform (.exec first) with
    | .normal => ofProgram rest
    | .returned _ => return ()

namespace Script

theorem run_ofProgram (fuel : Nat) (program : List Stmt) :
    (ofProgram program).run (Task.run fuel) = Eval.run fuel program := by
  induction program with
  | nil => rfl
  | cons first rest ih =>
    rw [ofProgram, Eval.run, run_bind, run_perform]
    refine bind_congr fun completion => ?_
    cases completion with
    | normal => exact ih
    | returned value => rfl

theorem detached_ofProgram (program : List Stmt) :
    (ofProgram program).Detached false fun _ => True := by
  induction program with
  | nil => exact detached_pure trivial
  | cons first rest ih =>
    refine detached_bind (detached_perform rfl) fun completion _ => ?_
    cases completion with
    | normal => exact ih
    | returned value => exact detached_pure trivial

/-- A program does nothing itself but call tasks. -/
theorem acts_ofProgram {p : ⦃α : Type⦄ → Eval α → Prop} (program : List Stmt) :
    (ofProgram program).Acts p := by
  induction program with
  | nil => exact acts_pure _
  | cons first rest ih =>
    refine acts_bind (acts_perform _) fun completion => ?_
    cases completion with
    | normal => exact ih
    | returned value => exact acts_pure _

variable {fuel : Nat} {program : List Stmt} {s : State} {m : Moment}

theorem passes_ofProgram :
    (ofProgram program).Passes fuel s m ↔ Moment.Begins fuel program s m := by
  constructor
  · intro passes
    induction program generalizing s with
    | nil => cases passes
    | cons first rest ih =>
      cases passes with
      | begins entered =>
        cases entered
        exact .here
      | @call _ _ _ _ s' completion _ done later =>
        cases completion with
        | normal => exact .later done (ih later)
        | returned value => cases later
  · intro begins
    induction begins with
    | here => exact .begins rfl
    | later done _ ih => exact .call done ih

theorem leads_ofProgram : (ofProgram program).Leads fuel s m ↔ Moment.During fuel program s m := by
  simp only [Leads, Moment.During, passes_ofProgram]

end Script

/-- A program has no task begin without the arguments that it should have. -/
theorem Moment.During.fits {fuel : Nat} {program : List Stmt} {s : State} {m : Moment}
    (h : Moment.During fuel program s m) : m.Fits := by
  obtain ⟨first, begins, reaches⟩ := h
  have fits := (Script.detached_ofProgram program).fitting.fits (Script.passes_ofProgram.2 begins)
  exact fits.reaches reaches

/-! ## 2. Texts and sessions -/

/-- The outcome of a text, from the end of its program. -/
def Outcome.ofRun : EStateM.Result Interrupt State Unit → Outcome
  | .ok _ _ => .finished
  | .error (.error error) _ => .failed (.runtimeError error)
  | .error .starved _ => .starved
  | .error .outOfFuel _ | .error .misuse _ => .stuck

theorem Outcome.ofRun_eq_failed {result : EStateM.Result Interrupt State Unit}
    {cause : RuntimeCause} {line : Nat} : Outcome.ofRun result = .failed (.runtimeError ⟨cause, line⟩) ↔
      ∃ s, result = .error (.error ⟨cause, line⟩) s := by
  constructor
  · intro h
    cases result with
    | ok v s => cases h
    | error interrupt s =>
      cases interrupt with
      | error e =>
        cases h
        exact ⟨s, rfl⟩
      | _ => cases h
  · rintro ⟨s, rfl⟩
    rfl

theorem Session.runWith_eq {session : Session} {source : String} {program : List Stmt}
    {resolution : Resolution} (fuel : Nat)
    (h : session.accepted? source = some (program, resolution)) :
    session.runWith fuel source =
      (.ofRun (Eval.run fuel program (session.ready resolution)),
        ⟨endState (Eval.run fuel program (session.ready resolution)), session.idAfter source⟩) := by
  rw [runWith_of_some fuel h, evaluate]
  rw [ready]
  cases Eval.run fuel program
      { session.state with resolution := session.state.resolution.absorb resolution } with
  | ok _ s' => rfl
  | error interrupt s' => cases interrupt <;> rfl

section Session

variable {input : Input} {room : Option Nat} {clock : Nat} {commands : List Command}

/-- **What happens in a session happens in the run of one of its texts.** -/
theorem Course.during {m : Moment} (happened : (Past.after input room clock commands).moments m) :
    ∃ before fuel source after program resolution, commands = before ++ .run fuel source :: after ∧
      ((new input room clock).follow before).session.accepted? source =
        some (program, resolution) ∧
      Moment.During fuel program
        (((new input room clock).follow before).session.ready resolution) m := by
  induction commands using List.reverseRecOn with
  | nil => exact False.elim happened
  | append_singleton commands command ih =>
    have extend : (Past.after input room clock commands).moments m → ∃ before fuel source after
        program resolution, commands ++ [command] = before ++ .run fuel source :: after ∧
        ((new input room clock).follow before).session.accepted? source =
          some (program, resolution) ∧
        Moment.During fuel program
          (((new input room clock).follow before).session.ready resolution) m := by
      intro earlier
      obtain ⟨before, fuel, source, after, program, resolution, rfl, found⟩ := ih earlier
      exact ⟨before, fuel, source, after ++ [command], program, resolution,
        List.append_assoc .., found⟩
    rw [Past.after, follow, List.foldl_concat, ← follow] at happened
    cases command with
    | run fuel source =>
      simp only [step] at happened
      cases accepted : ((new input room clock).follow commands).session.accepted? source with
      | none =>
        rw [accepted] at happened
        exact extend happened
      | some found =>
        rw [accepted] at happened
        rcases happened with earlier | during
        · exact extend earlier
        · exact ⟨commands, fuel, source, [], found.1, found.2, rfl, accepted, during⟩
    | _ => exact extend happened

/-- Between the texts of a session the scope is that of the globals, and no call is in progress. -/
theorem Course.place (input : Input) (room : Option Nat) (clock : Nat) (commands : List Command) :
    let state := ((new input room clock).follow commands).session.state
    state.scope = globalScope ∧ state.depth = 0 := by
  refine follow_induction
    (p := fun course => course.session.state.scope = globalScope ∧ course.session.state.depth = 0)
    (fun course command h => ?_) ⟨rfl, rfl⟩ commands
  have same := course.place_step command
  exact ⟨same.1.trans h.1, same.2.trans h.2⟩

end Session

end Lox
