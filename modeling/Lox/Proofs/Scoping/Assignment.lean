/-
# Assignments to local variables

A local variable is entered in its scope before its initializer is looked at, but it is bound only
behind it.  Reads in the initializer are refused, writes are not.  So an assignment whose name has a
local address finds its variable, with one exception: it stands in the initializer of the variable
itself (`Occurrence.InInitializer`), where it fails as undefined.

* `local_assignment_fails_iff`: the exception is exactly that, in every run of every session.
* `initializer_assignment_fails`: it does occur.
-/
import Lox.Proofs.Scoping.Address

namespace Lox

open StaticScope

/-- A place in the initializer of the local variable that has the name of the occurrence: the
innermost scope declares the name, and the declaration is not complete. -/
def Occurrence.InInitializer (o : Occurrence) : Prop := locate o.name o.scopes = some (0, false)

instance (o : Occurrence) : Decidable o.InInitializer :=
  inferInstanceAs (Decidable (locate o.name o.scopes = some (0, false)))

/-! ## 1. Writing a variable -/

namespace Eval

variable {s s' : State} {target : Variable} {e : Expr} {v : Value}

/-- A variable is written where its address leads, if it is bound there. -/
theorem writeVariable_local {hops : Nat} {scope : ScopeId}
    (hbinding : s.resolution.binding target.id = .local hops)
    (hscope : s.scopes.ancestor? s.scope hops = some scope) (v : Value) :
    writeVariable target v s =
      if s.scopes.binds scope target.name.text then
        .ok () { s with scopes := s.scopes.define scope target.name.text v }
      else .error (.error ⟨.undefinedVariable target.name.text, target.name.line⟩) s := by
  simp only [writeVariable, hbinding, hscope, Option.filter_some]
  cases s.scopes.binds scope target.name.text <;> rfl

/-- A name without an address is written among the globals, if it is bound there. -/
theorem writeVariable_global (hbinding : s.resolution.binding target.id = .global) (v : Value) :
    writeVariable target v s =
      if s.scopes.binds globalScope target.name.text then
        .ok () { s with scopes := s.scopes.define globalScope target.name.text v }
      else .error (.error ⟨.undefinedVariable target.name.text, target.name.line⟩) s := by
  simp only [writeVariable, hbinding, Option.filter_some]
  cases s.scopes.binds globalScope target.name.text <;> rfl

/-- An assignment writes the value of its right side, and gives it. -/
theorem eval_assign {fuel : Nat} (answer : eval fuel e s = .ok v s') :
    eval (fuel + 1) (.assign target e) s =
      match writeVariable target v s' with
      | .ok _ s'' => .ok v s''
      | .error interrupt s'' => .error interrupt s'' := by
  have steps : eval (fuel + 1) (.assign target e) = (do
      let v ← eval fuel e
      writeVariable target v
      return v) := by
    simp only [eval]
  rw [steps, bind_of_ok answer]
  cases written : writeVariable target v s' with
  | ok _ s'' =>
    rw [bind_of_ok written]
    rfl
  | error interrupt s'' => rw [bind_of_error written]

end Eval

/-! ## 2. Assignments in a session -/

section Begun

variable {past earlier : Past} {stack : List StaticScope} {fuel : Nat} {target : Variable}
  {e : Expr} {s s' : State} {v : Value}

/-- While the right side is evaluated no scope gets names that existed before. -/
theorem Past.Begun.value_gives
    (begun : past.Begun (fuel + 1) (.eval (.assign target e)) s earlier stack)
    (answer : Eval.eval fuel e s = .ok v s') : s.Leads earlier none s' := by
  obtain ⟨_, value⟩ := begun.next (.eval e) s (.begins rfl)
  have ends := value.ends
  change Ends (Eval.eval fuel e s) _ _ at ends
  rw [answer] at ends
  exact ends.1

/-- When the right side of an assignment has been evaluated, its address leads to an instance of
the scope that declares the name, and the name is bound there unless the place is in its own
initializer. -/
theorem Past.Begun.target_bound_iff
    (begun : past.Begun (fuel + 1) (.eval (.assign target e)) s earlier stack)
    (answer : Eval.eval fuel e s = .ok v s') {hops : Nat}
    (hlocal : s.resolution.binding target.id = .local hops) :
    ∃ static scope, stack[hops]? = some static ∧ static.names.contains target.name.text ∧
      s'.scopes.ancestor? s.scope hops = some scope ∧ earlier.Opened scope static.origin ∧
      (s'.scopes.binds scope target.name.text ↔
        ¬ Occurrence.InInitializer ⟨.writes target.id, target.name.text, stack⟩) := by
  have ready : s.Ready earlier stack (Occurrence.ofExpr stack (.assign target e)) := begun.expects
  obtain ⟨filed, -, admissible⟩ := ready.sound.filed _
    (ready.known.right ⟨.writes target.id, target.name.text, stack⟩ (List.mem_singleton_self _))
  have leads := begun.value_gives answer
  have binding := (filed target.id rfl).symm.trans hlocal
  simp only [Occurrence.binding] at binding
  cases located : locate target.name.text stack with
  | none =>
    rw [located] at binding
    cases binding
  | some found =>
    obtain ⟨hops', complete⟩ := found
    rw [located] at binding
    cases binding
    obtain ⟨scope, static, hscope, hstatic, opened, names, binds⟩ :=
      (ready.placed.realizes.mono leads.grows).bound located
    have contains : static.names.contains target.name.text := by
      rw [Bindings.contains, names]
      rfl
    refine ⟨static, scope, hstatic, contains, hscope, opened, ?_⟩
    simp only [Occurrence.InInitializer, located, Option.some.injEq, Prod.mk.injEq]
    cases complete with
    | true => exact ⟨fun _ h => Bool.noConfusion h.2, fun _ => binds rfl⟩
    | false =>
      -- the name is half declared in the current scope, which therefore does not bind it
      obtain rfl := admissible hops located
      refine ⟨fun hbinds => ?_, fun h => absurd ⟨rfl, rfl⟩ h⟩
      cases stack with
      | nil => cases hstatic
      | cons first outer =>
        cases hstatic
        cases hscope
        have before := leads.names s.scope target.name.text
          (ready.placed.realizes.lt_size (List.cons_ne_nil _ _)) (by simp) hbinds
        have entered := ready.placed.names _ outer rfl target.name.text before
        cases names.symm.trans entered

end Begun

/-- **A local assignment fails only in the initializer of its variable.**  Once the right side has
been evaluated, an assignment with a local address finds the scope that declares the name.  If it
stands in the initializer of that very variable it fails as undefined, and otherwise it succeeds.
An assignment without an address succeeds if the name is bound among the globals, and fails as
undefined if not. -/
theorem local_assignment_fails_iff (input : Input) (room : Option Nat) (clock : Nat)
    (commands : List Command) (fuel : Nat) (target : Variable) (e : Expr) (s s' : State) (v : Value)
    (begun : (Past.after input room clock commands).moments
      (.begins (fuel + 1) (.eval (.assign target e)) s))
    (answer : Eval.eval fuel e s = .ok v s') :
    let past := Past.after input room clock commands
    let undefined := EStateM.Result.error
      (Interrupt.error ⟨.undefinedVariable target.name.text, target.name.line⟩) s'
    ∃ scopes, let o : Occurrence := ⟨.writes target.id, target.name.text, scopes⟩
      past.Occurs o ∧ o.Filed s.resolution ∧
      (∀ hops, s.resolution.binding target.id = .local hops →
        ∃ static scope, scopes[hops]? = some static ∧ static.names.contains target.name.text ∧
          s'.scopes.ancestor? s.scope hops = some scope ∧ past.InstanceOf scope static.origin ∧
          Eval.eval (fuel + 1) (.assign target e) s =
            if o.InInitializer then undefined
            else .ok v { s' with scopes := s'.scopes.define scope target.name.text v }) ∧
      (s.resolution.binding target.id = .global →
        Eval.eval (fuel + 1) (.assign target e) s =
          if s'.scopes.binds globalScope target.name.text then
            .ok v { s' with scopes := s'.scopes.define globalScope target.name.text v }
          else undefined) := by
  intro past undefined
  obtain ⟨earlier, stack, begun⟩ :=
    (Course.scoped input room clock commands).begun (fuel + 1) (.eval (.assign target e)) s begun
  have ready : s.Ready earlier stack (Occurrence.ofExpr stack (.assign target e)) := begun.expects
  have known := ready.known.right ⟨.writes target.id, target.name.text, stack⟩
    (List.mem_singleton_self _)
  have place : s.SamePlace s' := by
    have kept := Task.keeps_run fuel (.eval e) s
    change s.SamePlace (endState (Eval.eval fuel e s)) at kept
    rwa [answer] at kept
  refine ⟨stack, begun.before.occurs known, (ready.sound.filed _ known).1,
    fun hops hlocal => ?_, fun hglobal => ?_⟩
  · obtain ⟨static, scope, hstatic, contains, hscope, opened, bound⟩ :=
      begun.target_bound_iff answer hlocal
    refine ⟨static, scope, hstatic, contains, hscope,
      opened.instanceOf begun.before (Course.openings input room clock commands), ?_⟩
    rw [Eval.eval_assign answer, Eval.writeVariable_local (place.resolution ▸ hlocal)
      (place.scope ▸ hscope)]
    by_cases inside : Occurrence.InInitializer ⟨.writes target.id, target.name.text, stack⟩
    · rw [if_neg fun hbinds => bound.1 hbinds inside, if_pos inside]
    · rw [if_pos (bound.2 inside), if_neg inside]
  · rw [Eval.eval_assign answer, Eval.writeVariable_global (place.resolution ▸ hglobal)]
    cases s'.scopes.binds globalScope target.name.text <;> rfl

/-! ## 3. Two sessions -/

namespace Assignment

/-- A variable is assigned behind its declaration. -/
def plain : List Stmt :=
  [.block [.varDecl ⟨"a", 1⟩ none, .expression (.assign ⟨1, ⟨"a", 1⟩⟩ (.literal .nil))]]

/-- A variable is assigned in its own initializer. -/
def early : List Stmt :=
  [.block [.varDecl ⟨"a", 1⟩ (some (.assign ⟨1, ⟨"a", 1⟩⟩ (.literal .nil))),
    .print 1 (.variable ⟨2, ⟨"a", 1⟩⟩)]]

def succeeds (_ : Variable) : EStateM.Result Interrupt State Value → Bool
  | .ok _ _ => true
  | .error _ _ => false

/-- Whether an assignment fails because its target is not defined. -/
def misses (target : Variable) : EStateM.Result Interrupt State Value → Bool
  | .error interrupt _ =>
    interrupt == .error ⟨.undefinedVariable target.name.text, target.name.line⟩
  | .ok _ _ => false

/-- Whether an assignment with a local address begins, the right side of which gives a value, and
what the assignment gives passes a test. -/
def test (p : Variable → EStateM.Result Interrupt State Value → Bool) : Moment → Bool
  | .begins (fuel + 1) (.eval (.assign target e)) s =>
    match s.resolution.binding target.id, Eval.eval fuel e s with
    | .local _, .ok _ _ => p target (Eval.eval (fuel + 1) (.assign target e) s)
    | _, _ => false
  | _ => false

/-- A session that passes such a moment. -/
theorem begins_local (source : String) (program : List Stmt)
    (read : ((Session.new ⟨[], true⟩ none 0).accepted? source).map Prod.fst = some program)
    (p : Variable → EStateM.Result Interrupt State Value → Bool)
    (found : ((Session.new ⟨[], true⟩ none 0).trace 30 program).any (test p) = true) :
    ∃ fuel target e s s' v hops, (Past.after ⟨[], true⟩ none 0 [.run 30 source]).moments
        (.begins (fuel + 1) (.eval (.assign target e)) s) ∧
      Eval.eval fuel e s = .ok v s' ∧ s.resolution.binding target.id = .local hops ∧
      p target (Eval.eval (fuel + 1) (.assign target e) s) = true := by
  obtain ⟨m, hm, hp⟩ :=
    Course.moment_of_trace (.new ⟨[], true⟩ none 0) 30 source program read _ found
  unfold test at hp
  split at hp
  · rename_i fuel target e s
    split at hp
    · rename_i hops v s' binding answer
      exact ⟨fuel, target, e, s, s', v, hops, hm, answer, binding, hp⟩
    · cases hp
  · cases hp

end Assignment

/-- Behind the declaration an assignment succeeds. -/
theorem plain_assignment_succeeds :
    ∃ fuel target e s v s',
      (Past.after ⟨[], true⟩ none 0 [.run 30 "\x7b var a; a = nil; \x7d"]).moments
        (.begins (fuel + 1) (.eval (.assign target e)) s) ∧
      Eval.eval (fuel + 1) (.assign target e) s = .ok v s' := by
  obtain ⟨fuel, target, e, s, s', v, hops, begun, answer, hlocal, succeeds⟩ :=
    Assignment.begins_local "\x7b var a; a = nil; \x7d" Assignment.plain (by cbv)
      Assignment.succeeds (by decide +kernel)
  obtain ⟨_, -, -, onLocal, -⟩ := local_assignment_fails_iff ⟨[], true⟩ none 0
    [.run 30 "\x7b var a; a = nil; \x7d"] fuel target e s s' v begun answer
  obtain ⟨_, scope, -, -, -, -, result⟩ := onLocal hops hlocal
  split at result
  · rw [result] at succeeds
    cases succeeds
  · exact ⟨fuel, target, e, s, v, _, begun, result⟩

/-- In the initializer it fails, although the name has a local address and the right side a
value. -/
theorem initializer_assignment_fails :
    ∃ fuel target e s s' v hops s'',
      (Past.after ⟨[], true⟩ none 0 [.run 30 "\x7b var a = a = nil; print a; \x7d"]).moments
        (.begins (fuel + 1) (.eval (.assign target e)) s) ∧
      Eval.eval fuel e s = .ok v s' ∧ s.resolution.binding target.id = .local hops ∧
      Eval.eval (fuel + 1) (.assign target e) s =
        .error (.error ⟨.undefinedVariable target.name.text, target.name.line⟩) s'' := by
  obtain ⟨fuel, target, e, s, s', v, hops, begun, answer, hlocal, fails⟩ :=
    Assignment.begins_local "\x7b var a = a = nil; print a; \x7d" Assignment.early
      (by cbv) Assignment.misses (by decide +kernel)
  cases result : Eval.eval (fuel + 1) (.assign target e) s with
  | ok v' s'' =>
    rw [result] at fails
    cases fails
  | error interrupt s'' =>
    rw [result] at fails
    obtain rfl := eq_of_beq fails
    exact ⟨fuel, target, e, s, s', v, hops, s'', begun, answer, hlocal, result⟩

end Lox
