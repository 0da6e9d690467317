/-
# Payloads are of the kind of the root

In every state of a session, an instance has a payload of the kind of the built-in class that its
own class descends from, if it has one at all, and whatever instance a program gets hold of has one
if its own class is built in (`State.Formed.complete_of_holds`).  So a built-in method fails for
want of a payload only on an instance of a declared class, and only if the built-in initializer has
never given an answer on it (`Course.wanted`).  `payloads_fit_roots` puts these together.
-/
import Lox.Proofs.Eval.Payload
import Lox.Proofs.Session.Returning

namespace Lox

/-! ## 1. Instances that a program can have -/

/-- An instance that a program gets hold of along with a value. -/
def Value.Mentions (id : InstanceId) : Value → Prop
  | .inst other => other = id
  | .callable (.bound method) => method.receiver = id
  | _ => False

theorem Value.Formed.complete {heap : Heap} {value : Value} {id : InstanceId}
    (h : value.Formed heap) (mentions : value.Mentions id) : heap.Complete id := by
  cases value with
  | inst other =>
    obtain rfl := mentions
    exact h
  | callable callable =>
    cases callable with
    | bound method =>
      obtain rfl := mentions
      exact BoundMethod.Formed.complete h
    | _ => cases mentions
  | _ => cases mentions

/-- The instances that can be found in a formed state have their payloads. -/
theorem State.Formed.complete_of_holds {past : Past} {s : State} (formed : s.Formed past)
    {value : Value} (holds : s.store.Holds value) {id : InstanceId}
    (mentions : value.Mentions id) : s.heap.Complete id := by
  cases holds with
  | bound found => exact (formed.bound _ _ _ found).complete mentions
  | field found => exact (formed.heap.fields _ _ _ found).complete mentions
  | item found => exact (formed.heap.items _ _ _ found).complete mentions
  | element found => exact (formed.heap.elements _ _ found).complete mentions
  | «class» found => cases mentions

/-- The states of a session: the last one, and those in which something began or ended. -/
inductive Course.Reached (course : Course) : State → Prop where
  | last : Reached course course.session.state
  | begins {fuel : Nat} {task : Task} {s : State}
      (begun : course.past.moments (.begins fuel task s)) : Reached course s
  | ends {fuel : Nat} {task : Task} {s : State}
      (begun : course.past.moments (.begins fuel task s)) :
      Reached course (endState (task.run fuel s))

/-! ## 2. Errors of programs -/

theorem Eval.Looks.eq_of_ok {α : Type} {x : Eval α} (hx : Looks x) {s s' : State} {v : α}
    (h : x s = .ok v s') : s' = s := by
  have same := hx s
  rw [h] at same
  exact same

/-- A built-in initializer that gives an answer has set the payload. -/
theorem Eval.callMethod_sets {method : BuiltinMethod} {self : InstanceId}
    {arguments : List Value} {line : Nat} {s s' : State} {v : Value} {cls : Class}
    (initializes : method.initializes) (hcls : s.heap.class? self = some cls)
    (h : callMethod method self arguments line s = .ok v s') :
    (s'.heap.payload? self).isSome := by
  have sets : ∀ {payload : Payload} {t : State}, t.heap.class? self = some cls →
      (do modifyHeap (·.setPayload self payload); return Value.inst self : Eval Value) t =
        .ok v s' → (s'.heap.payload? self).isSome := by
    intro payload t found h
    cases h
    change ((t.heap.setPayload self payload).payload? self).isSome
    rw [Heap.payload?_setPayload_self found]
    rfl
  unfold callMethod at h
  split at h
  case h_1 =>
    obtain ⟨storage, t, made, h⟩ := bind_eq_ok h
    have found : t.heap.class? self = some cls := by
      cases made
      exact hcls
    exact sets found h
  case h_7 => exact sets hcls h
  case h_14 =>
    obtain ⟨first, s₁, h₁, h⟩ := bind_eq_ok h
    obtain ⟨last, s₂, h₂, h⟩ := bind_eq_ok h
    obtain ⟨step, s₃, h₃, h⟩ := bind_eq_ok h
    have same : s₃ = s := by
      rw [(Looks.plain.rangeBound line _).eq_of_ok h₃, (Looks.plain.rangeBound line _).eq_of_ok h₂,
        (Looks.plain.rangeBound line _).eq_of_ok h₁]
    split at h
    · cases h
    · exact sets (same ▸ hcls) h
  case h_19 => cases h
  all_goals exact absurd initializes (by decide)

/-- A program that is interrupted has come to a statement that is. -/
theorem Eval.run_eq_error {fuel : Nat} {program : List Stmt} {s s' : State} {interrupt : Interrupt}
    (h : run fuel program s = .error interrupt s') :
    ∃ first t, Moment.Begins fuel program s (.begins fuel (.exec first) t) ∧
      exec fuel first t = .error interrupt s' := by
  induction program generalizing s with
  | nil => cases h
  | cons first rest ih =>
    rw [run] at h
    cases hs : exec fuel first s with
    | error interrupt' t =>
      rw [bind_of_error hs] at h
      cases h
      exact ⟨first, s, .here, hs⟩
    | ok completion t =>
      rw [bind_of_ok hs] at h
      cases completion with
      | returned value => cases h
      | normal =>
        obtain ⟨next, u, begins, failed⟩ := ih h
        exact ⟨next, u, .later hs begins, failed⟩

/-- A text that ends with a run-time error has been accepted, and its program is interrupted. -/
theorem Session.runWith_failed {session : Session} {fuel : Nat} {source : String}
    {error : RuntimeError}
    (h : (session.runWith fuel source).1 = .failed (.runtimeError error)) :
    ∃ program resolution, session.accepted? source = some (program, resolution) ∧
      Eval.run fuel program (session.ready resolution) =
        .error (.error error) (session.runWith fuel source).2.state := by
  cases accepted : session.accepted? source with
  | some found =>
    obtain ⟨program, resolution⟩ := found
    refine ⟨program, resolution, rfl, ?_⟩
    rw [runWith_of_some fuel accepted, evaluate] at h ⊢
    rw [ready]
    cases ran : Eval.run fuel program
        { session.state with resolution := session.state.resolution.absorb resolution } with
    | ok done s' =>
      rw [ran] at h
      cases h
    | error interrupt s' =>
      rw [ran] at h
      cases interrupt <;> cases h
      rfl
  | none =>
    unfold accepted? at accepted
    unfold runWith at h
    cases hscan : scan source with
    | error errors =>
      rw [hscan] at h
      cases h
    | ok stream =>
      simp only [hscan] at h accepted
      cases hparse : (parse stream session.nextId).result with
      | error failure =>
        simp only [hparse] at h
        cases failure <;> cases h
      | ok program =>
        simp only [hparse] at h accepted
        cases hresolve : resolve program with
        | error errors =>
          simp only [hresolve] at h
          cases h
        | ok resolution =>
          simp only [hresolve] at accepted
          cases accepted

section Session

variable {input : Input} {room : Option Nat} {clock : Nat} {commands : List Command}

/-! ## 3. Sessions -/

/-- All states of a session are formed. -/
theorem Course.formed_of_reached {s : State}
    (reached : ((Course.new input room clock).follow commands).Reached s) :
    s.Formed (Past.after input room clock commands) := by
  have formed := Course.formed input room clock commands
  cases reached with
  | last => exact formed.state.formed
  | begins begun => exact (formed.lasts _ _ _ begun).1.1
  | ends begun => exact (Course.forms begun).leads_endState.formed

/-- An evaluation ends for want of a payload only where a method other than the initializer has been
called on an instance of a declared class that has none. -/
theorem Course.wanted {fuel : Nat} {task : Task} {s s' : State} {interrupt : Interrupt}
    (begun : (Past.after input room clock commands).moments (.begins fuel task s))
    (failed : task.run fuel s = .error interrupt s') (uninitialized : interrupt.Uninitialized) :
    ∃ n self method arguments line t,
      Moment.Reaches (.begins fuel task s)
        (.begins (n + 1) (.applyMethod ⟨self, .builtin method⟩ arguments line) t) ∧
      Eval.applyMethod (n + 1) ⟨self, .builtin method⟩ arguments line t = .error interrupt t ∧
      method.initializes = false ∧ t.heap.Unset self method ∧ t.heap = s'.heap := by
  obtain ⟨n, looking, t, t', reaches, looks, failed', same⟩ := Task.failed failed uninitialized
  obtain ⟨⟨formed, given⟩, -⟩ :=
    (Course.formed input room clock commands).lasts _ _ t (Course.happened begun reaches)
  obtain ⟨self, method, arguments, line, rfl, later, unset, rfl⟩ :=
    looks.failed formed given failed' uninitialized
  exact ⟨n, self, method, arguments, line, t', reaches, failed', later, unset, same⟩

/-- If an instance has no payload in the end, then no built-in initializer has given an answer on
it. -/
theorem Course.never_initialized {self : InstanceId}
    (none : ((Course.new input room clock).follow commands).session.state.heap.payload? self = none)
    {k line : Nat} {method : BuiltinMethod} {arguments : List Value} {u u' : State} {v : Value}
    (begun : (Past.after input room clock commands).moments
      (.begins k (.applyMethod ⟨self, .builtin method⟩ arguments line) u))
    (initializes : method.initializes) :
    Eval.applyMethod k ⟨self, .builtin method⟩ arguments line u ≠ .ok v u' := by
  intro answered
  obtain ⟨⟨⟨formed, given⟩, -⟩, settles⟩ :=
    (Course.formed input room clock commands).settles _ _ u begun
  obtain ⟨⟨cls, kind, hcls, -⟩, -⟩ := given.1
  change State.Forms _ (endState (Eval.applyMethod k ⟨self, .builtin method⟩ arguments line u)) _
    at settles
  rw [answered] at settles
  cases k with
  | zero =>
    rw [Eval.applyMethod] at answered
    cases answered
  | succ k =>
    rw [Eval.applyMethod] at answered
    have isSome := settles.grows.isSome (Eval.callMethod_sets initializes hcls answered)
    rw [none] at isSome
    cases isSome

/-- If a text ends for want of a payload, then on an instance of a declared class that has none
still, and on which no built-in initializer has ever given an answer. -/
theorem Course.text_wanted {fuel line : Nat} {source : String}
    (failed : (((Course.new input room clock).follow commands).session.runWith fuel source).1 =
      .failed (.runtimeError ⟨.builtin .uninitialized, line⟩)) :
    let after := ((Course.new input room clock).follow commands).step (.run fuel source)
    ∃ self method, method.initializes = false ∧ after.session.state.heap.Unset self method ∧
      (∃ n arguments line' t, after.past.moments
          (.begins (n + 1) (.applyMethod ⟨self, .builtin method⟩ arguments line') t) ∧
        Eval.applyMethod (n + 1) ⟨self, .builtin method⟩ arguments line' t =
          .error (.error ⟨.builtin .uninitialized, line⟩) t) ∧
      ∀ k init arguments line' u v u', init.initializes →
        after.past.moments (.begins k (.applyMethod ⟨self, .builtin init⟩ arguments line') u) →
        Eval.applyMethod k ⟨self, .builtin init⟩ arguments line' u ≠ .ok v u' := by
  intro after
  have same : after = (Course.new input room clock).follow (commands ++ [.run fuel source]) :=
    (List.foldl_concat step (new input room clock) (.run fuel source) commands).symm
  obtain ⟨program, resolution, accepted, ran⟩ := Session.runWith_failed failed
  obtain ⟨first, t, begins, failed'⟩ := Eval.run_eq_error ran
  have begun : after.past.moments (.begins fuel (.exec first) t) := by
    simp only [after, step, accepted]
    exact Or.inr ⟨_, begins, .refl⟩
  rw [same] at begun
  obtain ⟨n, self, method, arguments, line', u, reaches, wanted, later, unset, heap⟩ :=
    Course.wanted begun failed' ⟨line, rfl⟩
  have unset' : after.session.state.heap.Unset self method := heap ▸ unset
  have none := unset'.payload
  rw [same] at none unset' ⊢
  exact ⟨self, method, later, unset', ⟨n, arguments, line', u, Course.happened begun reaches,
    wanted⟩, fun _ _ _ _ _ _ _ initializes begun => Course.never_initialized none begun initializes⟩

end Session

/-- **Payloads are of the kind of the root.**  In all states of a session, the chain of the class of
an instance consists of declared classes and at most one built-in class behind them, a payload is of
the kind of that class, and all instances that are found in scopes, fields and collections, by
themselves or as receivers of bound methods, have a payload if their own class is built in; so have
those that expressions give.  An evaluation ends for want of a payload only where a built-in method
has been called on an instance of a declared class that has no payload at all, and if a text ends so
then no built-in initializer has ever given an answer on the instance. -/
theorem payloads_fit_roots (input : Input) (room : Option Nat) (clock : Nat)
    (commands : List Command) :
    let course := (Course.new input room clock).follow commands
    (∀ s, course.Reached s →
      (∀ id cls, s.heap.class? id = some cls →
        (∃ declared, cls.chain = declared ++ cls.root?.toList.map Class.builtin ∧
          ∀ level ∈ declared, level.isBuiltin = false) ∧
        ∀ payload, s.heap.payload? id = some payload → cls.root? = some payload.kind) ∧
      ∀ value id, s.store.Holds value → value.Mentions id →
        ∃ cls, s.heap.class? id = some cls ∧ (cls.isBuiltin → (s.heap.payload? id).isSome)) ∧
    (∀ fuel e s v s' id, course.past.moments (.begins fuel (.eval e) s) →
      Eval.eval fuel e s = .ok v s' → v.Mentions id →
      ∃ cls, s'.heap.class? id = some cls ∧ (cls.isBuiltin → (s'.heap.payload? id).isSome)) ∧
    (∀ fuel task s line s', course.past.moments (.begins fuel task s) →
      task.run fuel s = .error (.error ⟨.builtin .uninitialized, line⟩) s' →
      ∃ n self method arguments line' t,
        Moment.Reaches (.begins fuel task s)
          (.begins (n + 1) (.applyMethod ⟨self, .builtin method⟩ arguments line') t) ∧
        Eval.applyMethod (n + 1) ⟨self, .builtin method⟩ arguments line' t =
          .error (.error ⟨.builtin .uninitialized, line⟩) t ∧
        method.initializes = false ∧ t.heap.Unset self method ∧ t.heap = s'.heap) ∧
    ∀ fuel source line,
      (course.session.runWith fuel source).1 =
        .failed (.runtimeError ⟨.builtin .uninitialized, line⟩) →
      let after := course.step (.run fuel source)
      ∃ self method, method.initializes = false ∧ after.session.state.heap.Unset self method ∧
        (∃ n arguments line' t, after.past.moments
            (.begins (n + 1) (.applyMethod ⟨self, .builtin method⟩ arguments line') t) ∧
          Eval.applyMethod (n + 1) ⟨self, .builtin method⟩ arguments line' t =
            .error (.error ⟨.builtin .uninitialized, line⟩) t) ∧
        ∀ k init arguments line' u v u', init.initializes →
          after.past.moments (.begins k (.applyMethod ⟨self, .builtin init⟩ arguments line') u) →
          Eval.applyMethod k ⟨self, .builtin init⟩ arguments line' u ≠ .ok v u' := by
  intro course
  refine ⟨fun s reached => ?_, fun fuel e s v s' id begun answered mentions => ?_,
    fun fuel task s line s' begun failed => Course.wanted begun failed ⟨line, rfl⟩,
    fun fuel source line failed => Course.text_wanted failed⟩
  · have formed := Course.formed_of_reached reached
    refine ⟨fun id cls hcls => ⟨cls.chain_of_root?, fun payload found => ?_⟩,
      fun value id holds mentions => formed.complete_of_holds holds mentions⟩
    obtain ⟨cls', hcls', root⟩ := formed.heap.payloads id payload found
    obtain rfl := Option.some.inj (hcls.symm.trans hcls')
    exact root
  · have forms := Course.forms begun
    change Ends (Eval.eval fuel e s) _ _ at forms
    rw [answered] at forms
    exact Value.Formed.complete forms.2 mentions

/-! ## 4. A list without elements -/

namespace Unset

/-- A list is made, and a class of lists whose initializer does not call the one of lists. -/
def text : String :=
  "var l = List(); class A < List \x7b init() \x7b\x7d \x7d A().size();"

/-- What the text says. -/
def program : List Stmt :=
  [.varDecl ⟨"l", 1⟩ (some (.call (.variable ⟨0, ⟨"List", 1⟩⟩) [] 1)),
    .classDecl ⟨"A", 1⟩ (some ⟨1, ⟨"List", 1⟩⟩) [⟨⟨"init", 1⟩, [], []⟩],
    .expression (.call (.get (.call (.variable ⟨2, ⟨"A", 1⟩⟩) [] 1) ⟨"size", 1⟩) [] 1)]

/-- A new session. -/
abbrev course : Course := .new ⟨[], true⟩ none 0

/-- What has become of it. -/
abbrev after : Course := course.step (.run 40 text)

theorem program_read : (course.session.accepted? text).map Prod.fst = some program := by
  cbv

/-- Whether an evaluation ends for want of a payload. -/
def wants {α : Type} : EStateM.Result Interrupt State α → Bool
  | .error (.error ⟨.builtin .uninitialized, _⟩) _ => true
  | _ => false

theorem eq_error_of_wants {α : Type} {result : EStateM.Result Interrupt State α}
    (h : wants result = true) :
    ∃ line s, result = .error (.error ⟨.builtin .uninitialized, line⟩) s := by
  unfold wants at h
  split at h
  · exact ⟨_, _, rfl⟩
  · cases h

/-- Whether the program ends for want of a payload in a new session. -/
def programWants : Bool :=
  match resolve program with
  | .error _ => false
  | .ok resolution => wants (Eval.run 40 program (course.session.ready resolution))

/-- Whether an expression begins that gives an instance. -/
def givesInstance : Moment → Bool
  | .begins fuel (.eval e) s =>
    match Eval.eval fuel e s with
    | .ok (.inst _) _ => true
    | _ => false
  | _ => false

/-- Whether a statement begins that ends for want of a payload. -/
def statementWants : Moment → Bool
  | .begins fuel (.exec first) s => wants (Eval.exec fuel first s)
  | _ => false

/-- Whether a task begins in a state in which an instance has a payload. -/
def hasPayload : Moment → Bool
  | .begins _ _ s => (s.heap.payload? 0).isSome
  | _ => false

/-- Whether a task begins in a state in which the global variable is an instance. -/
def holdsInstance : Moment → Bool
  | .begins _ _ s =>
    match s.scopes.get? globalScope "l" with
    | some (.inst _) => true
    | _ => false
  | _ => false

end Unset

/-- The list has its payload; the other instance has none, and calling a method of lists on it ends
the program. -/
theorem list_is_unset :
    (∃ s id cls payload, Unset.after.Reached s ∧ s.heap.class? id = some cls ∧
      s.heap.payload? id = some payload ∧ cls.root? = some payload.kind) ∧
    (∃ s id cls, Unset.after.Reached s ∧ s.store.Holds (.inst id) ∧
      s.heap.class? id = some cls ∧ (cls.isBuiltin → (s.heap.payload? id).isSome)) ∧
    (∃ fuel e s s' id cls, Unset.after.past.moments (.begins fuel (.eval e) s) ∧
      Eval.eval fuel e s = .ok (.inst id) s' ∧ s'.heap.class? id = some cls ∧
      (cls.isBuiltin → (s'.heap.payload? id).isSome)) ∧
    (∃ fuel first s line s' self method, Unset.after.past.moments (.begins fuel (.exec first) s) ∧
      Eval.exec fuel first s = .error (.error ⟨.builtin .uninitialized, line⟩) s' ∧
      s'.heap.Unset self method) ∧
    ∃ line self method,
      (Unset.course.session.runWith 40 Unset.text).1 =
        .failed (.runtimeError ⟨.builtin .uninitialized, line⟩) ∧
      Unset.after.session.state.heap.Unset self method := by
  obtain ⟨states, expressions, tasks, -⟩ :=
    payloads_fit_roots ⟨[], true⟩ none 0 [.run 40 Unset.text]
  have moment := Unset.course.moment_of_trace 40 Unset.text Unset.program Unset.program_read
  refine ⟨?_, ?_, ?_, ?_, ?_⟩
  · obtain ⟨m, hm, hp⟩ := moment Unset.hasPayload (by decide +kernel)
    unfold Unset.hasPayload at hp
    split at hp
    · rename_i fuel task s
      obtain ⟨payload, found⟩ := Option.isSome_iff_exists.1 hp
      obtain ⟨inst, hinst, -⟩ := Option.bind_eq_some_iff.1 found
      have hcls : s.heap.class? 0 = some inst.cls := by rw [Heap.class?, hinst, Option.map_some]
      exact ⟨s, 0, inst.cls, payload, .begins hm, hcls, found,
        ((states s (.begins hm)).1 0 inst.cls hcls).2 payload found⟩
    · cases hp
  · obtain ⟨m, hm, hp⟩ := moment Unset.holdsInstance (by decide +kernel)
    unfold Unset.holdsInstance at hp
    split at hp
    · rename_i fuel task s
      split at hp
      · rename_i id found
        obtain ⟨cls, hcls, set⟩ := (states s (.begins hm)).2 (.inst id) id (.bound found) rfl
        exact ⟨s, id, cls, .begins hm, .bound found, hcls, set⟩
      · cases hp
    · cases hp
  · obtain ⟨m, hm, hp⟩ := moment Unset.givesInstance (by decide +kernel)
    unfold Unset.givesInstance at hp
    split at hp
    · rename_i fuel e s
      split at hp
      · rename_i id s' answered
        obtain ⟨cls, hcls, set⟩ := expressions fuel e s (.inst id) s' id hm answered rfl
        exact ⟨fuel, e, s, s', id, cls, hm, answered, hcls, set⟩
      · cases hp
    · cases hp
  · obtain ⟨m, hm, hp⟩ := moment Unset.statementWants (by decide +kernel)
    unfold Unset.statementWants at hp
    split at hp
    · rename_i fuel first s
      obtain ⟨line, s', failed⟩ := Unset.eq_error_of_wants hp
      obtain ⟨_, self, method, _, _, _, -, -, -, unset, heap⟩ :=
        tasks fuel (.exec first) s line s' hm failed
      exact ⟨fuel, first, s, line, s', self, method, hm, failed, heap ▸ unset⟩
    · cases hp
  · obtain ⟨⟨program, resolution⟩, accepted, same⟩ := Option.map_eq_some_iff.1 Unset.program_read
    obtain rfl : program = Unset.program := same
    obtain ⟨_, -, -, -, resolved⟩ := Session.accepted?_eq_some accepted
    have wants : Unset.programWants = true := by decide +kernel
    rw [Unset.programWants, resolved] at wants
    obtain ⟨line, s', ran⟩ := Unset.eq_error_of_wants wants
    have failed : (Unset.course.session.runWith 40 Unset.text).1 =
        .failed (.runtimeError ⟨.builtin .uninitialized, line⟩) := by
      rw [Session.runWith_of_some 40 accepted, Session.evaluate]
      rw [Session.ready] at ran
      simp only [ran]
    obtain ⟨self, method, -, unset, -⟩ :=
      (payloads_fit_roots ⟨[], true⟩ none 0 []).2.2.2 40 Unset.text line failed
    exact ⟨line, self, method, failed, unset⟩

end Lox
