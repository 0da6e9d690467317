/-
# Returns are caught

A `return` that is executed in a session stands in the body of a function that is being called,
since an accepted program has none elsewhere, and no other call lies between the call of the
function and the `return` (`Course.caught`).  It ends that call, with its value or, if the function
is an initializer, with the receiver (`Course.catch_ends`).  So a statement of a program does not
end with a `return`, and a program that finishes has run to its end (`Eval.run_eq_ok_iff`).
`returns_are_caught` puts these together.
-/
import Lox.Proofs.Eval.Returning
import Lox.Proofs.Scoping.Return
import Lox.Proofs.Session.Receiver

namespace Lox

/-! ## 1. Statements of a program -/

namespace Stmt

variable {s other : Stmt} {body : List Stmt}

theorem ReturnFreeAll.of_mem (h : ReturnFreeAll body) (mem : s ∈ body) : s.ReturnFree := by
  induction body with
  | nil => cases mem
  | cons first rest ih =>
    rcases List.mem_cons.1 mem with rfl | mem
    · exact h.1
    · exact ih h.2 mem

/-- No `return` stands in a statement without one. -/
theorem ReturnFree.contained (h : s.ReturnFree) (contains : s.Contains other) :
    other.ReturnFree := by
  induction contains with
  | self s => exact h
  | block mem _ ih => exact ih (ReturnFreeAll.of_mem h mem)
  | thenBranch _ ih => exact ih h.1
  | elseBranch _ ih => exact ih h.2
  | whileLoop _ ih => exact ih h
  | forEach _ ih => exact ih h

end Stmt

/-- The statements that a program begins are its own. -/
theorem Moment.Begins.eq {fuel : Nat} {program : List Stmt} {s : State} {m : Moment}
    (h : Moment.Begins fuel program s m) :
    ∃ first ∈ program, ∃ t, m = .begins fuel (.exec first) t := by
  induction h with
  | here => exact ⟨_, List.mem_cons_self, _, rfl⟩
  | later _ _ ih =>
    obtain ⟨first, mem, t, rfl⟩ := ih
    exact ⟨first, List.mem_cons_of_mem _ mem, t, rfl⟩

/-- All that happens in a session follows from statements without `return`. -/
theorem Course.origin (input : Input) (room : Option Nat) (clock : Nat) (commands : List Command)
    {m : Moment} (happened : (Past.after input room clock commands).moments m) :
    ∃ fuel first s, first.ReturnFree ∧
      (Past.after input room clock commands).moments (.begins fuel (.exec first) s) ∧
      Moment.Reaches (.begins fuel (.exec first) s) m := by
  refine follow_induction (p := fun course => ∀ m, course.past.moments m →
      ∃ fuel first s, first.ReturnFree ∧ course.past.moments (.begins fuel (.exec first) s) ∧
        Moment.Reaches (.begins fuel (.exec first) s) m)
    (fun course command ih m happened => ?_) (fun m nothing => False.elim nothing) commands m
    happened
  cases command with
  | run fuel source =>
    simp only [step] at happened ⊢
    cases accepted : course.session.accepted? source with
    | none =>
      rw [accepted] at happened
      exact ih m happened
    | some found =>
      obtain ⟨program, resolution⟩ := found
      rw [accepted] at happened
      rcases happened with earlier | ⟨start, begins, reaches⟩
      · obtain ⟨fuel', first, s, free, begun, reaches⟩ := ih m earlier
        exact ⟨fuel', first, s, free, Or.inl begun, reaches⟩
      · obtain ⟨_, -, -, -, resolved⟩ := Session.accepted?_eq_some accepted
        obtain ⟨first, mem, t, rfl⟩ := begins.eq
        exact ⟨fuel, first, t, (returnFree_of_resolve resolved).of_mem mem,
          Or.inr ⟨_, begins, .refl⟩, reaches⟩
  | _ => exact ih m happened

/-! ## 2. Whole programs -/

namespace Eval

/-- All statements of a program run to their ends, from one state to another. -/
inductive Completes (fuel : Nat) : List Stmt → State → State → Prop where
  | nil (s : State) : Completes fuel [] s s
  | cons {first : Stmt} {rest : List Stmt} {s s' s'' : State}
      (done : exec fuel first s = .ok .normal s') (completes : Completes fuel rest s' s'') :
      Completes fuel (first :: rest) s s''

/-- **A program that ends without an interrupt has run to its end**, if it does not return. -/
theorem run_eq_ok_iff {fuel : Nat} {program : List Stmt} (h : Stmt.ReturnFreeAll program)
    {s s' : State} : run fuel program s = .ok () s' ↔ Completes fuel program s s' := by
  induction program generalizing s with
  | nil =>
    refine ⟨fun ran => ?_, fun completes => ?_⟩
    · cases ran
      exact .nil _
    · cases completes
      rfl
  | cons first rest ih =>
    refine ⟨fun ran => ?_, fun completes => ?_⟩
    · obtain ⟨completion, t, done, ran⟩ := bind_eq_ok ran
      cases (fallsWithin fuel).exec first h.1 _ _ _ done
      exact .cons done ((ih h.2).1 ran)
    · cases completes with
      | cons done completes =>
        rw [run, bind_of_ok done]
        exact (ih h.2).2 completes

end Eval

/-! ## 3. Calls that catch -/

/-- A `return` gives the value of its expression. -/
theorem Moment.returns_ret {fuel line : Nat} {value : Option Expr} {s s' : State} {v : Value}
    (evaluated : Eval.evalOptional fuel value s = .ok v s') :
    Moment.Returns v s' (.begins (fuel + 1) (.exec (.ret line value)) s) := by
  refine ⟨Completion.returned, rfl, ?_⟩
  change Eval.exec (fuel + 1) (.ret line value) s = _
  rw [Eval.exec, Eval.bind_of_ok evaluated]
  rfl

/-- The value of a bare `return` is `nil`. -/
theorem Eval.evalOptional_none {fuel : Nat} {s s' : State} {v : Value}
    (h : evalOptional fuel none s = .ok v s') : v = .nil := by
  cases fuel with
  | zero =>
    rw [evalOptional] at h
    cases h
  | succ fuel =>
    rw [evalOptional.eq_2 _ (Nat.succ_ne_zero fuel)] at h
    cases h
    rfl

/-- What returns stands in the body of the function. -/
theorem Moment.Catches.holds {n : Nat} {closure : Closure} {arguments : List Value} {s : State}
    {m : Moment} {st : Stmt}
    (catches : Moment.Catches (.begins (n + 1) (.applyClosure closure arguments) s) m)
    (holds : m.Holds st) : ∃ first ∈ closure.declaration.body, first.Contains st := by
  cases catches with
  | mk next executes => exact executes.holds holds

/-- What a call of a function gives once its body has returned. -/
theorem Moment.Catches.ends {n : Nat} {closure : Closure} {arguments : List Value} {s s' : State}
    {m : Moment} {v : Value}
    (catches : Moment.Catches (.begins (n + 1) (.applyClosure closure arguments) s) m)
    (returns : m.Returns v s') :
    Eval.applyClosure (n + 1) closure arguments s =
      Eval.callResult closure (.returned v) { s' with scope := s.scope } := by
  cases catches with
  | mk next executes =>
    obtain ⟨how, hhow, ran⟩ := executes.returns returns
    cases hhow
    have ended := (next_applyClosure next).2.2 _ _ ran
    exact ended

namespace Eval

variable {closure : Closure} {s : State}

theorem callResult_ordinary (flag : closure.isInitializer = false) (completion : Completion)
    (s : State) : callResult closure completion s = .ok completion.value s := by
  rw [callResult, if_neg (by rw [flag]; exact Bool.false_ne_true)]
  rfl

theorem callResult_initializer (flag : closure.isInitializer = true) (completion : Completion)
    {receiver : Value} (this : s.scopes.get? closure.scope "this" = some receiver) :
    callResult closure completion s = .ok receiver s := by
  have found : s.scopes.getAt? closure.scope 0 "this" = some receiver := this
  rw [callResult, if_pos flag, look_bind, found]
  rfl

theorem endState_callResult (completion : Completion) (s : State) :
    endState (callResult closure completion s) = s := by
  cases flag : closure.isInitializer with
  | false =>
    rw [callResult_ordinary flag]
    rfl
  | true =>
    rw [callResult, if_pos flag, look_bind]
    cases s.scopes.getAt? closure.scope 0 "this" <;> rfl

end Eval

section Session

variable {input : Input} {room : Option Nat} {clock : Nat} {commands : List Command}

/-- What follows from a moment of a session is a moment of the session. -/
theorem Course.happened {m m' : Moment} (h : (Past.after input room clock commands).moments m)
    (reaches : m.Reaches m') : (Past.after input room clock commands).moments m' := by
  induction reaches with
  | refl => exact h
  | tail _ next ih => exact (Course.scoped input room clock commands).closed _ _ ih next

/-- A `return` is executed in the call of a function. -/
theorem Course.caught {fuel line : Nat} {value : Option Expr} {s : State}
    (begun : (Past.after input room clock commands).moments
      (.begins fuel (.exec (.ret line value)) s)) :
    ∃ call, (Past.after input room clock commands).moments call ∧
      call.Catches (.begins fuel (.exec (.ret line value)) s) := by
  obtain ⟨k, first, t, free, start, reaches⟩ := Course.origin input room clock commands begun
  rcases Moment.executes_or_calls reaches rfl with executes | ⟨call, reached, catches⟩
  · have here : Moment.Holds (.ret line value) (.begins fuel (.exec (.ret line value)) s) :=
      .self _
    exact (free.contained (executes.holds here)).elim
  · exact ⟨call, Course.happened start reached, catches⟩

/-- If a function is called, or anything else is done that is not a statement, then a `return` that
is executed meanwhile is caught meanwhile. -/
theorem Moment.caught_within {fuel line n : Nat} {value : Option Expr} {s t : State} {task : Task}
    (other : task.returned? = none)
    (reaches : Reaches (.begins n task t) (.begins fuel (.exec (.ret line value)) s)) :
    ∃ call, Reaches (.begins n task t) call ∧
      call.Catches (.begins fuel (.exec (.ret line value)) s) := by
  refine (executes_or_calls reaches rfl).resolve_left fun executes => ?_
  rcases Relation.ReflTransGen.cases_head executes with same | ⟨_, part, -⟩
  · cases same
    cases other
  · exact absurd (other ▸ part.statement : (none : Option (Value → task.Answer)).isSome)
      Bool.false_ne_true

/-- **A `return` ends the call that catches it**, with its value or with the receiver. -/
theorem Course.catch_ends {n : Nat} {closure : Closure} {arguments : List Value} {m : Moment}
    {t s' : State} {v : Value}
    (begun : (Past.after input room clock commands).moments
      (.begins (n + 1) (.applyClosure closure arguments) t))
    (catches : Moment.Catches (.begins (n + 1) (.applyClosure closure arguments) t) m)
    (returns : m.Returns v s') :
    (closure.isInitializer = false →
      Eval.applyClosure (n + 1) closure arguments t = .ok v { s' with scope := t.scope }) ∧
    (closure.isInitializer = true → ∃ receiver,
      (∃ arguments line, (Past.after input room clock commands).moments
        (.begins (n + 2) (.applyMethod ⟨receiver, .declared closure⟩ arguments line) t)) ∧
      Eval.applyClosure (n + 1) closure arguments t =
        .ok (.inst receiver) { s' with scope := t.scope }) := by
  have ended := catches.ends returns
  refine ⟨fun flag => ended.trans (Eval.callResult_ordinary flag _ _), fun flag => ?_⟩
  obtain ⟨⟨-, given⟩, -⟩ := (Course.formed input room clock commands).lasts _ _ t begun
  obtain ⟨⟨-, called, -⟩, -⟩ := (Course.anchored input room clock commands).lasts _ _ t begun
  obtain ⟨receiver, this⟩ := given.1 flag
  refine ⟨receiver, called.method receiver this, ?_⟩
  -- the receiver is bound at the beginning of the call, and still behind the body
  have leads := (Course.retains begun).leads_endState
  change State.Retains _ t (endState (Eval.applyClosure (n + 1) closure arguments t)) at leads
  rw [ended, Eval.endState_callResult] at leads
  have kept := leads.store.reserved closure.scope "this" (Scopes.lt_size_of_get? this)
    reserved_this
  exact ended.trans (Eval.callResult_initializer flag _ (kept.trans this))

/-- No statement of a program ends with a `return`, and a program finishes just if all of its
statements have run to their ends. -/
theorem Session.finished_iff {session : Session} {source : String} {program : List Stmt}
    {resolution : Resolution} (fuel : Nat)
    (accepted : session.accepted? source = some (program, resolution)) :
    (∀ k first t v t', Moment.Begins fuel program (session.ready resolution)
        (.begins k (.exec first) t) → Eval.exec k first t ≠ .ok (.returned v) t') ∧
    ((session.runWith fuel source).1 = .finished ↔
      Eval.Completes fuel program (session.ready resolution)
        (session.runWith fuel source).2.state) := by
  obtain ⟨_, -, -, -, resolved⟩ := Session.accepted?_eq_some accepted
  have free := returnFree_of_resolve resolved
  refine ⟨fun k first t v t' begins returned => ?_, ?_⟩
  · obtain ⟨_, mem, _, ⟨⟩⟩ := begins.eq
    cases (Eval.fallsWithin fuel).exec first (free.of_mem mem) _ _ _ returned
  · rw [Session.runWith_of_some fuel accepted, ← Eval.run_eq_ok_iff free, Session.evaluate]
    cases ran : Eval.run fuel program (session.ready resolution) with
    | ok done s' =>
      rw [Session.ready] at ran
      simp only [ran]
    | error interrupt s' =>
      rw [Session.ready] at ran
      simp only [ran]
      cases interrupt <;> simp

end Session

/-- **Returns are caught.**  Whenever a `return` is executed in a session, a function is being
called in whose body it stands, and of everything that is being done meanwhile and is not a
statement, whether a call, a property that is called or a step of an iterator, nothing lies between
that call and the `return`.  If its expression has a value, which is `nil` if there is no
expression, then every statement around it ends with the value, and so does the call, in the state
behind the expression; but the call of an initializer ends with the receiver.  No statement of a
program ends with a `return`, and a program finishes just if all its statements have run to their
ends. -/
theorem returns_are_caught (input : Input) (room : Option Nat) (clock : Nat)
    (commands : List Command) :
    let past := Past.after input room clock commands
    let session := ((Course.new input room clock).follow commands).session
    (∀ fuel line value s, past.moments (.begins (fuel + 1) (.exec (.ret line value)) s) →
      let ret := Moment.begins (fuel + 1) (.exec (.ret line value)) s
      (∃ call, past.moments call ∧ call.Catches ret) ∧
      (∀ n task t, task.returned? = none → Moment.Reaches (.begins n task t) ret →
        ∃ call, Moment.Reaches (.begins n task t) call ∧ call.Catches ret) ∧
      ∀ v s', Eval.evalOptional fuel value s = .ok v s' →
        (value = none → v = .nil) ∧
        (∀ around : Moment, around.Executes ret →
          around.Returns v { s' with scope := around.state.scope }) ∧
        ∀ n closure arguments t,
          past.moments (.begins (n + 1) (.applyClosure closure arguments) t) →
          Moment.Catches (.begins (n + 1) (.applyClosure closure arguments) t) ret →
          (∃ first ∈ closure.declaration.body, first.Contains (.ret line value)) ∧
          (closure.isInitializer = false → Eval.applyClosure (n + 1) closure arguments t =
            .ok v { s' with scope := t.scope }) ∧
          (closure.isInitializer = true → ∃ receiver,
            (∃ arguments line, past.moments
              (.begins (n + 2) (.applyMethod ⟨receiver, .declared closure⟩ arguments line) t)) ∧
            Eval.applyClosure (n + 1) closure arguments t =
              .ok (.inst receiver) { s' with scope := t.scope })) ∧
    ∀ fuel source program resolution, session.accepted? source = some (program, resolution) →
      (∀ k first t v t', Moment.Begins fuel program (session.ready resolution)
        (.begins k (.exec first) t) → Eval.exec k first t ≠ .ok (.returned v) t') ∧
      ((session.runWith fuel source).1 = .finished ↔
        Eval.Completes fuel program (session.ready resolution)
          (session.runWith fuel source).2.state) := by
  intro past session
  refine ⟨fun fuel line value s begun => ⟨Course.caught begun, fun n task t other reaches =>
    Moment.caught_within other reaches, fun v s' evaluated => ⟨?_, fun around executes =>
      executes.returns (Moment.returns_ret evaluated), fun n closure arguments t call catches =>
        ⟨catches.holds (.self _), Course.catch_ends call catches (Moment.returns_ret evaluated)⟩⟩⟩,
    fun fuel source program resolution accepted => Session.finished_iff fuel accepted⟩
  rintro rfl
  exact Eval.evalOptional_none evaluated

/-! ## 5. A function and an initializer that return -/

namespace Returning

/-- A function returns from a loop in a loop. -/
def ofFunction : String :=
  "fun f(a) \x7b foreach (x; [a]) while (x) \x7b if (x) return x; \x7d \x7d f(f);"

/-- What the text says. -/
def functionProgram : List Stmt :=
  [.funDecl ⟨⟨"f", 1⟩, [⟨"a", 1⟩], [.forEach 1 ⟨"x", 1⟩ (.list 1 [.variable ⟨0, ⟨"a", 1⟩⟩])
      (.whileLoop (.variable ⟨1, ⟨"x", 1⟩⟩) (.block [.ifElse (.variable ⟨2, ⟨"x", 1⟩⟩)
        (.ret 1 (some (.variable ⟨3, ⟨"x", 1⟩⟩))) none]))]⟩,
    .expression (.call (.variable ⟨4, ⟨"f", 1⟩⟩) [.variable ⟨5, ⟨"f", 1⟩⟩] 1)]

/-- An initializer returns from a loop. -/
def ofInitializer : String :=
  "class A \x7b init() \x7b while (true) return; \x7d \x7d A();"

/-- What the text says. -/
def initializerProgram : List Stmt :=
  [.classDecl ⟨"A", 1⟩ none
      [⟨⟨"init", 1⟩, [], [.whileLoop (.literal (.boolean true)) (.ret 1 none)]⟩],
    .expression (.call (.variable ⟨0, ⟨"A", 1⟩⟩) [] 1)]

/-- A new session. -/
abbrev course : Course := .new ⟨[], true⟩ none 0

/-- Whether a `return` is executed that has a value. -/
def returns : Moment → Bool
  | .begins (fuel + 1) (.exec (.ret _ value)) s =>
    Receiver.answers (Eval.evalOptional fuel value s)
  | _ => false

/-- Whether a call is that of an initializer, or not, as given. -/
def isFlagged (flag : Bool) : Moment → Bool
  | .begins _ (.applyClosure closure _) _ => closure.isInitializer == flag
  | _ => true

/-- Whether a program ends without an interrupt in a new session. -/
def finishes (program : List Stmt) : Bool :=
  match resolve program with
  | .error _ => false
  | .ok resolution =>
    Receiver.answers (Eval.run 40 program (course.session.ready resolution))

theorem functionProgram_read :
    (course.session.accepted? ofFunction).map Prod.fst = some functionProgram := by
  cbv

theorem initializerProgram_read :
    (course.session.accepted? ofInitializer).map Prod.fst = some initializerProgram := by
  cbv

/-- All calls of functions in the run of a text are flagged in the same way. -/
theorem flagged {source : String} {program : List Stmt}
    (read : (course.session.accepted? source).map Prod.fst = some program) {flag : Bool}
    (all : (course.session.trace 40 program).all (isFlagged flag) = true) {n : Nat}
    {closure : Closure} {arguments : List Value} {t : State}
    (call : (course.step (.run 40 source)).past.moments
      (.begins n (.applyClosure closure arguments) t)) : closure.isInitializer = flag :=
  (course.moments_of_trace 40 source program read _ all call).elim False.elim fun same =>
    beq_iff_eq.1 same

end Returning

/-- A function returns from two loops with a value, an initializer returns from a loop with its
receiver, and the program goes on to its end. -/
theorem loops_are_left :
    (∃ fuel line value s v s' n closure arguments t,
      (Returning.course.step (.run 40 Returning.ofFunction)).past.moments
        (.begins (fuel + 1) (.exec (.ret line value)) s) ∧
      Moment.Catches (.begins (n + 1) (.applyClosure closure arguments) t)
        (.begins (fuel + 1) (.exec (.ret line value)) s) ∧
      Eval.evalOptional fuel value s = .ok v s' ∧
      Eval.applyClosure (n + 1) closure arguments t = .ok v { s' with scope := t.scope }) ∧
    (∃ fuel line value s v s' n closure arguments t receiver,
      (Returning.course.step (.run 40 Returning.ofInitializer)).past.moments
        (.begins (fuel + 1) (.exec (.ret line value)) s) ∧
      Moment.Catches (.begins (n + 1) (.applyClosure closure arguments) t)
        (.begins (fuel + 1) (.exec (.ret line value)) s) ∧
      Eval.evalOptional fuel value s = .ok v s' ∧
      Eval.applyClosure (n + 1) closure arguments t =
        .ok (.inst receiver) { s' with scope := t.scope }) ∧
    ∃ resolution, Returning.course.session.accepted? Returning.ofFunction =
        some (Returning.functionProgram, resolution) ∧
      Eval.Completes 40 Returning.functionProgram (Returning.course.session.ready resolution)
        (Returning.course.session.runWith 40 Returning.ofFunction).2.state := by
  refine ⟨?_, ?_, ?_⟩
  · obtain ⟨m, hm, hp⟩ := Returning.course.moment_of_trace 40 Returning.ofFunction
      Returning.functionProgram Returning.functionProgram_read Returning.returns (by decide +kernel)
    unfold Returning.returns at hp
    split at hp
    · rename_i fuel line value s
      obtain ⟨v, s', evaluated⟩ := Receiver.eq_ok_of_answers hp
      obtain ⟨⟨call, moment, catches⟩, -, ends⟩ :=
        (returns_are_caught ⟨[], true⟩ none 0 [.run 40 Returning.ofFunction]).1 fuel line value s hm
      obtain ⟨-, -, calls⟩ := ends v s' evaluated
      cases catches with
      | @mk n closure arguments t inner _ next executes =>
        obtain ⟨-, ordinary, -⟩ := calls n closure arguments t moment ⟨next, executes⟩
        have flag : closure.isInitializer = false :=
          Returning.flagged Returning.functionProgram_read (by decide +kernel) moment
        exact ⟨fuel, line, value, s, v, s', n, closure, arguments, t, hm, ⟨next, executes⟩,
          evaluated, ordinary flag⟩
    · cases hp
  · obtain ⟨m, hm, hp⟩ := Returning.course.moment_of_trace 40 Returning.ofInitializer
      Returning.initializerProgram Returning.initializerProgram_read Returning.returns
        (by decide +kernel)
    unfold Returning.returns at hp
    split at hp
    · rename_i fuel line value s
      obtain ⟨v, s', evaluated⟩ := Receiver.eq_ok_of_answers hp
      obtain ⟨⟨call, moment, catches⟩, -, ends⟩ :=
        (returns_are_caught ⟨[], true⟩ none 0 [.run 40 Returning.ofInitializer]).1 fuel line value s
          hm
      obtain ⟨-, -, calls⟩ := ends v s' evaluated
      cases catches with
      | @mk n closure arguments t inner _ next executes =>
        obtain ⟨-, -, initializer⟩ := calls n closure arguments t moment ⟨next, executes⟩
        have flag : closure.isInitializer = true :=
          Returning.flagged Returning.initializerProgram_read (by decide +kernel) moment
        obtain ⟨receiver, -, gives⟩ := initializer flag
        exact ⟨fuel, line, value, s, v, s', n, closure, arguments, t, receiver, hm,
          ⟨next, executes⟩, evaluated, gives⟩
    · cases hp
  · obtain ⟨⟨program, resolution⟩, accepted, rfl⟩ :=
      Option.map_eq_some_iff.1 Returning.functionProgram_read
    obtain ⟨_, -, -, -, resolved⟩ := Session.accepted?_eq_some accepted
    have finishes : Returning.finishes Returning.functionProgram = true := by decide +kernel
    rw [Returning.finishes, resolved] at finishes
    obtain ⟨_, s', ran⟩ := Receiver.eq_ok_of_answers finishes
    have finished : (Returning.course.session.runWith 40 Returning.ofFunction).1 = .finished := by
      rw [Session.runWith_of_some 40 accepted, Session.evaluate]
      rw [Session.ready] at ran
      simp only [ran]
    exact ⟨resolution, accepted,
      (((returns_are_caught ⟨[], true⟩ none 0 []).2 40 _ _ _ accepted).2).1 finished⟩

end Lox
