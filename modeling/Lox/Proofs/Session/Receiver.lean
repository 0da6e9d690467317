/-
# Receivers are kept

A method that has been bound to an instance has a scope that binds `this` to the instance.  Nothing
else is ever bound there, and nothing that runs later changes it (`Course.receiver_scope`): it is
never the current scope, and an assignment does not reach it (`Course.assignment_misses`).  So
`this` stands for the receiver of the call around it for as long as functions of the method are
kept (`Course.this_is_receiver`), and a call of an initializer gives its receiver whatever the body
does (`Course.initializer_gives_receiver`).  `receivers_are_kept` puts these together.
-/
import Lox.Proofs.Session.Dispatch
import Lox.Proofs.Session.Formed

namespace Lox

/-! ## 1. The scope of a receiver -/

/-- A scope binds `this` to an instance, and nothing else. -/
def Scopes.BindsThis (scopes : Scopes Value) (scope : ScopeId) (receiver : InstanceId) : Prop :=
  ∀ name, scopes.get? scope name = if name = "this" then some (.inst receiver) else none

namespace Scopes.BindsThis

variable {scopes : Scopes Value} {scope : ScopeId} {receiver other : InstanceId}

theorem this (h : scopes.BindsThis scope receiver) :
    scopes.get? scope "this" = some (.inst receiver) :=
  h "this"

theorem unique (h : scopes.BindsThis scope receiver) (h' : scopes.BindsThis scope other) :
    receiver = other := by
  cases h.this.symm.trans h'.this
  rfl

/-- Such a scope stays as it is. -/
theorem mono {σ σ' : Store} (h : σ.scopes.BindsThis scope receiver) (retains : σ.Retains σ') :
    σ'.scopes.BindsThis scope receiver := by
  intro name
  rw [retains.sealed scope "this" name reserved_this (Scopes.binds_of_get? h.this), h name]

end Scopes.BindsThis

section States

variable {past : Past} {s : State} {scope : ScopeId} {receiver : InstanceId}

theorem State.Anchored.bindsThis (anchored : s.Anchored past)
    (this : s.scopes.get? scope "this" = some (.inst receiver)) :
    s.scopes.BindsThis scope receiver := by
  intro name
  by_cases same : name = "this"
  · rw [if_pos same, same, this]
  · rw [if_neg same]
    cases found : s.scopes.get? scope name with
    | none => rfl
    | some value =>
      exact absurd (anchored.store.alone scope "this" name reserved_this
        (Scopes.binds_of_get? this) (Scopes.binds_of_get? found)) same

/-- A scope that has been made for a receiver binds it. -/
theorem State.Formed.bindsThis (formed : s.Formed past) (anchored : s.Anchored past)
    {method : FunDecl} (opened : past.Opened scope (.receiver method))
    (lt : scope < s.scopes.all.size) : ∃ receiver, s.scopes.BindsThis scope receiver := by
  obtain ⟨value, this⟩ := Option.isSome_iff_exists.1 (formed.receivers scope method lt opened)
  obtain ⟨receiver, _, _, _, _, rfl, -⟩ := anchored.store.receivers scope value this
  exact ⟨receiver, anchored.bindsThis this⟩

end States

/-! ## 2. Initializers -/

namespace Eval

variable {s s' : State} {v : Value}

/-- Only a scope that binds the name is written in. -/
theorem writeVariable_eq_ok {target : Variable} (h : writeVariable target v s = .ok () s') :
    ∃ scope, s.scopes.binds scope target.name.text ∧
      s'.scopes = s.scopes.define scope target.name.text v := by
  unfold writeVariable at h
  dsimp only at h
  split at h
  · rename_i scope found
    cases h
    exact ⟨scope, (Option.filter_eq_some_iff.1 found).2, rfl⟩
  · cases h

/-- A built-in initializer gives its receiver. -/
theorem callMethod_initializes {method : BuiltinMethod} {self : InstanceId}
    {arguments : List Value} {line : Nat} (initializes : method.initializes)
    (h : callMethod method self arguments line s = .ok v s') : v = .inst self := by
  unfold callMethod at h
  split at h
  case h_1 | h_7 =>
    cases h
    rfl
  case h_14 =>
    obtain ⟨first, s₁, -, h⟩ := bind_eq_ok h
    obtain ⟨last, s₂, -, h⟩ := bind_eq_ok h
    obtain ⟨step, s₃, -, h⟩ := bind_eq_ok h
    split at h <;> cases h
    rfl
  case h_19 => cases h
  all_goals exact absurd initializes (by decide)

/-- What a call of an initializer gives is what its scope binds to `this` in the end. -/
theorem applyClosure_initializer {fuel : Nat} {closure : Closure} {arguments : List Value}
    (flag : closure.isInitializer) (h : applyClosure fuel closure arguments s = .ok v s') :
    s'.scopes.get? closure.scope "this" = some v := by
  cases fuel with
  | zero =>
    rw [applyClosure] at h
    cases h
  | succ fuel =>
    rw [applyClosure] at h
    obtain ⟨scope, s₁, -, h⟩ := bind_eq_ok h
    obtain ⟨_, s₂, -, h⟩ := bind_eq_ok h
    obtain ⟨completion, s₃, -, h⟩ := bind_eq_ok h
    rw [callResult, if_pos flag, look_bind] at h
    cases found : s₃.scopes.getAt? closure.scope 0 "this" with
    | none =>
      rw [found] at h
      cases h
    | some receiver =>
      rw [found] at h
      cases h
      exact found

/-- A call that gives an answer runs what is called, as one more call in progress. -/
theorem call_eq_ok {fuel line : Nat} {callable : Callable} {arguments : List Value}
    (h : call fuel (.callable callable) arguments line s = .ok v s') :
    ∃ n last, fuel = n + 1 ∧
      Moment.Next (.begins fuel (.call (.callable callable) arguments line) s)
        (.begins n (.apply callable arguments line) { s with depth := s.depth + 1 }) ∧
      apply n callable arguments line { s with depth := s.depth + 1 } = .ok v last ∧
      s' = { last with depth := last.depth - 1 } := by
  cases fuel with
  | zero =>
    rw [call] at h
    cases h
  | succ n =>
    by_cases arity : callable.arity = arguments.length
    · simp only [call, if_pos arity, nested] at h
      split at h
      · cases h
      · rename_i room
        have entered : (Frame.call line).enter s = .ok { s with depth := s.depth + 1 } :=
          if_neg room
        have passes : (Task.call (.callable callable) arguments line).script.Passes n s
            (.begins n (.apply callable arguments line) { s with depth := s.depth + 1 }) := by
          simp only [Task.script, Task.callScript, if_pos arity]
          exact .begins entered
        cases applied : apply n callable arguments line { s with depth := s.depth + 1 } with
        | ok answer last =>
          rw [applied] at h
          cases h
          exact ⟨n, last, rfl, .mk passes, applied, rfl⟩
        | error interrupt last =>
          rw [applied] at h
          cases h
    · simp only [call, if_neg arity] at h
      cases h

end Eval

section Session

variable {input : Input} {room : Option Nat} {clock : Nat} {commands : List Command}
  {fuel line : Nat} {s s' : State} {v : Value}

/-! ## 3. The scopes of a session -/

/-- The states of a session in which tasks begin are anchored and formed, and lead to its state. -/
theorem Course.begun {task : Task}
    (begun : (Past.after input room clock commands).moments (.begins fuel task s)) :
    s.Anchored (Past.after input room clock commands) ∧
      s.Formed (Past.after input room clock commands) ∧
      s.store.Retains ((Course.new input room clock).follow commands).session.state.store := by
  obtain ⟨⟨anchored, -⟩, leads⟩ := (Course.anchored input room clock commands).lasts fuel task s begun
  obtain ⟨⟨formed, -⟩, -⟩ := (Course.formed input room clock commands).lasts fuel task s begun
  exact ⟨anchored, formed, leads.store⟩

/-- A scope that has been made for a receiver binds it and nothing else, now and at every moment at
which there is the scope, and it is never the current scope. -/
theorem Course.receiver_scope {scope : ScopeId} {method : FunDecl}
    (opened : (Past.after input room clock commands).Opened scope (.receiver method)) :
    ∃ receiver,
      ((Course.new input room clock).follow commands).session.state.scopes.BindsThis scope receiver ∧
      ∀ fuel task s, (Past.after input room clock commands).moments (.begins fuel task s) →
        scope < s.scopes.all.size → s.scopes.BindsThis scope receiver ∧ s.scope ≠ scope := by
  have openings := Course.openings input room clock commands
  have lt : scope < ((Course.new input room clock).follow commands).session.state.scopes.all.size := by
    obtain ⟨t, opens, rfl⟩ := opened
    exact (openings.within _ t opens).2
  obtain ⟨receiver, binds⟩ := (Course.formed input room clock commands).state.formed.bindsThis
    (Course.anchored input room clock commands).state opened lt
  refine ⟨receiver, binds, fun fuel task s begun present => ?_⟩
  obtain ⟨anchored, formed, retains⟩ := Course.begun begun
  obtain ⟨other, binds'⟩ := formed.bindsThis anchored opened present
  obtain rfl := (binds'.mono retains).unique binds
  refine ⟨binds', fun current => ?_⟩
  subst current
  cases (anchored.plain.get?_eq_none reserved_this).symm.trans binds'.this

/-- An assignment writes in no scope of a receiver. -/
theorem Course.assignment_misses {target : Variable} {value : Expr} {s₁ s₂ : State}
    (begun : (Past.after input room clock commands).moments
      (.begins (fuel + 1) (.eval (.assign target value)) s))
    (evaluated : Eval.eval fuel value s = .ok v s₁)
    (written : Eval.writeVariable target v s₁ = .ok () s₂) :
    ∃ scope, s₂.scopes = s₁.scopes.define scope target.name.text v ∧
      ∀ method, ¬ (Past.after input room clock commands).Opened scope (.receiver method) := by
  obtain ⟨earlier, stack, -, ready⟩ := Course.ready_eval begun
  have filed := ready.sound.filed _ (ready.known.right _ List.mem_cons_self)
  have ordinary : Ordinary target.name.text := filed.2.1
  have inner : (Past.after input room clock commands).moments (.begins fuel (.eval value) s) :=
    (Course.scoped input room clock commands).closed _ _ begun (.mk (.begins rfl))
  have retains := Course.retains inner
  have forms := Course.forms inner
  change Ends (Eval.eval fuel value s) _ _ at retains forms
  rw [evaluated] at retains forms
  obtain ⟨scope, binds, same⟩ := Eval.writeVariable_eq_ok written
  refine ⟨scope, same, fun method opened => ?_⟩
  obtain ⟨_, found⟩ := Option.isSome_iff_exists.1 binds
  obtain ⟨receiver, this⟩ := forms.1.formed.bindsThis retains.1.anchored opened
    (Scopes.lt_size_of_get? found)
  have name := retains.1.anchored.store.alone scope "this" _ reserved_this
    (Scopes.binds_of_get? this.this) binds
  exact ordinary.1 name

/-- A bound method that is kept somewhere, or about to be run, has a scope that binds its
receiver. -/
theorem Course.bound_method_scope {task : Task} {receiver : InstanceId} {closure : Closure}
    (begun : (Past.after input room clock commands).moments (.begins fuel task s))
    (known : s.store.Holds (.callable (.bound ⟨receiver, .declared closure⟩)) ∨
      ∃ arguments line, task = .applyMethod ⟨receiver, .declared closure⟩ arguments line) :
    (Past.after input room clock commands).Opened closure.scope (.receiver closure.declaration) ∧
      s.scopes.BindsThis closure.scope receiver := by
  obtain ⟨⟨anchored, given⟩, -⟩ := (Course.anchored input room clock commands).lasts _ _ s begun
  have kept : (Value.callable (.bound ⟨receiver, .declared closure⟩)).Anchored
      (Past.after input room clock commands) s.scopes := by
    rcases known with held | ⟨arguments, line, rfl⟩
    · exact anchored.store.values _ held
    · exact given _ List.mem_cons_self
  obtain ⟨this, opened⟩ := kept
  exact ⟨opened, anchored.bindsThis this⟩

/-! ## 4. `this` -/

/-- A place in a method: so many scopes out lies the scope of the call, and next to it that of the
receiver. -/
structure Occurrence.InCall (o : Occurrence) (hops : Nat) (method : FunDecl) : Prop where
  call : (o.scopes.map StaticScope.origin)[hops]? = some (.call method)
  this : (o.scopes.map StaticScope.origin)[hops + 1]? = some (.receiver method)

/-- Where `this` is evaluated, a scope for the call of a method lies around it, also if a function
that was made in the call is run later, and `this` stands for the receiver of the call. -/
theorem Course.this_is_receiver {id : Id}
    (begun : (Past.after input room clock commands).moments
      (.begins (fuel + 1) (.eval (.this id line)) s)) :
    ∃ hops call, s.resolution.binding id = .local (hops + 1) ∧
      s.scopes.ancestor? s.scope hops = some call ∧
      (∃ receiver method, (Past.after input room clock commands).Invokes call receiver method) ∧
      ∀ receiver method, (Past.after input room clock commands).Invokes call receiver method →
        Eval.eval (fuel + 1) (.this id line) s = .ok (.inst receiver) s ∧
        ∃ scopes, Addresses (Past.after input room clock commands) s id ⟨.this id, "this", scopes⟩ ∧
          Occurrence.InCall ⟨.this id, "this", scopes⟩ hops method.declaration := by
  have closed := (Course.scoped input room clock commands).closed
  have lasts := (Course.anchored input room clock commands).lasts
  obtain ⟨anchored, -, retains⟩ := Course.begun begun
  obtain ⟨scopes, hops, addressed, hlocal⟩ := Course.this_addressed begun
  obtain ⟨value, hat⟩ := addressed.getAt? hlocal
  obtain ⟨scope, reached, this⟩ := Option.bind_eq_some_iff.1 hat
  obtain ⟨receiver, _, _, _, _, rfl, -⟩ := anchored.store.receivers scope value this
  cases hops with
  | zero =>
    -- `this` is not bound in the current scope
    cases reached
    cases (anchored.plain.get?_eq_none reserved_this).symm.trans this
  | succ hops =>
    have outward := reached
    rw [Scopes.ancestor?_succ] at outward
    obtain ⟨call, inward, link⟩ := Option.bind_eq_some_iff.1 outward
    obtain ⟨method, invoked, -⟩ := anchored.store.calls call scope receiver link this
    refine ⟨hops, call, hlocal, inward, ⟨receiver, method, invoked⟩, fun other method invoked => ?_⟩
    obtain ⟨calls, rfl, rfl⟩ := (invoked.calls closed lasts).back retains link this
    rw [Eval.eval_this]
    refine ⟨Eval.readVariable_local line hlocal hat, scopes, addressed, ?_, ?_⟩
    · obtain ⟨-, _, _, found, -⟩ := addressed.found _ hlocal
      have inside := (List.getElem?_eq_some_iff.1 found).1
      exact addressed.origin_at (Nat.lt_of_succ_lt inside) inward calls.call
    · obtain ⟨-, _, _, found, -⟩ := addressed.found _ hlocal
      exact addressed.origin_at (List.getElem?_eq_some_iff.1 found).1 reached calls.receiver

/-! ## 5. Initializers -/

/-- Running an initializer on an instance gives the instance. -/
theorem Course.initializer_gives_receiver {receiver : InstanceId} {method : Method}
    {arguments : List Value}
    (begun : (Past.after input room clock commands).moments
      (.begins fuel (.applyMethod ⟨receiver, method⟩ arguments line) s))
    (initializer : method.name = initializerName)
    (answered : Eval.applyMethod fuel ⟨receiver, method⟩ arguments line s = .ok v s') :
    v = .inst receiver := by
  cases fuel with
  | zero =>
    rw [Eval.applyMethod] at answered
    cases answered
  | succ fuel =>
    cases method with
    | builtin builtin =>
      rw [Eval.applyMethod] at answered
      exact Eval.callMethod_initializes (decide_eq_true initializer) answered
    | declared closure =>
      obtain ⟨⟨-, given⟩, -⟩ := (Course.formed input room clock commands).lasts _ _ s begun
      have flag : closure.isInitializer := by
        rw [given.1.suits, FunDecl.isInitializer]
        exact decide_eq_true initializer
      obtain ⟨-, binds⟩ := Course.bound_method_scope begun (Or.inr ⟨arguments, line, rfl⟩)
      have retains := Course.retains begun
      change Ends (Eval.applyMethod (fuel + 1) _ arguments line s) _ _ at retains
      rw [answered] at retains
      rw [Eval.applyMethod] at answered
      have this := Eval.applyClosure_initializer flag answered
      exact Option.some.inj (this.symm.trans (binds.mono retains.1.store).this)

/-- Calling a bound initializer, wherever it has been kept, gives its receiver. -/
theorem Course.initializer_call {receiver : InstanceId} {method : Method} {arguments : List Value}
    (begun : (Past.after input room clock commands).moments
      (.begins fuel (.call (.callable (.bound ⟨receiver, method⟩)) arguments line) s))
    (initializer : method.name = initializerName)
    (answered :
      Eval.call fuel (.callable (.bound ⟨receiver, method⟩)) arguments line s = .ok v s') :
    v = .inst receiver := by
  have closed := (Course.scoped input room clock commands).closed
  obtain ⟨n, last, rfl, next, applied, -⟩ := Eval.call_eq_ok answered
  have applies := closed _ _ begun next
  cases n with
  | zero =>
    rw [Eval.apply] at applied
    cases applied
  | succ n =>
    rw [Eval.apply] at applied
    exact Course.initializer_gives_receiver (closed _ _ applies (.mk (.begins rfl))) initializer
      applied

/-- Running a class gives a new instance of it. -/
theorem Course.class_gives_instance {cls : Class} {arguments : List Value}
    (begun : (Past.after input room clock commands).moments
      (.begins fuel (.apply (.class cls) arguments line) s))
    (answered : Eval.apply fuel (.class cls) arguments line s = .ok v s') :
    v = .inst s.heap.instances.size ∧ s'.heap.class? s.heap.instances.size = some cls := by
  have closed := (Course.scoped input room clock commands).closed
  cases fuel with
  | zero =>
    rw [Eval.apply] at answered
    cases answered
  | succ fuel =>
    rw [Eval.apply] at answered
    obtain ⟨id, s₁, made, answered⟩ := Eval.bind_eq_ok answered
    have new : s₁.heap.class? id = some cls ∧ id = s.heap.instances.size := by
      cases made
      exact ⟨(Heap.class?_add ..).trans (if_pos rfl), rfl⟩
    obtain ⟨hcls, rfl⟩ := new
    cases found : cls.findMethod? initializerName with
    | none =>
      simp only [found] at answered
      cases answered
      exact ⟨rfl, hcls⟩
    | some initializer =>
      simp only [found] at answered
      obtain ⟨bound, s₂, bind, answered⟩ := Eval.bind_eq_ok answered
      obtain ⟨_, s₃, applied, answered⟩ := Eval.bind_eq_ok answered
      cases answered
      -- the initializer begins with the new instance in the heap, and leaves its class alone
      have starts : (Past.after input room clock commands).moments
          (.begins fuel (.applyMethod bound arguments line) s₂) ∧ s₂.heap = s₁.heap := by
        refine ⟨closed _ _ begun (.mk (.act made ?_)), ?_⟩
        · simp only [Script.bind, found]
          cases initializer with
          | builtin method =>
            cases bind
            exact .begins rfl
          | declared closure =>
            cases bind
            exact .act rfl (.act rfl (.act rfl (.begins rfl)))
        · cases initializer <;> cases bind <;> rfl
      have retains := Course.retains starts.1
      change Ends (Eval.applyMethod fuel bound arguments line s₂) _ _ at retains
      rw [applied] at retains
      have before : s₂.store.heap.class? s.heap.instances.size = some cls := by
        rw [State.store, starts.2]
        exact hcls
      exact ⟨rfl, retains.1.store.class _ _ before⟩

/-- Calling a class gives a new instance of it. -/
theorem Course.class_call {cls : Class} {arguments : List Value}
    (begun : (Past.after input room clock commands).moments
      (.begins fuel (.call (.callable (.class cls)) arguments line) s))
    (answered : Eval.call fuel (.callable (.class cls)) arguments line s = .ok v s') :
    v = .inst s.heap.instances.size ∧ s.heap.class? s.heap.instances.size = none ∧
      s'.heap.class? s.heap.instances.size = some cls := by
  have closed := (Course.scoped input room clock commands).closed
  obtain ⟨n, last, rfl, next, applied, rfl⟩ := Eval.call_eq_ok answered
  obtain ⟨same, hcls⟩ := Course.class_gives_instance (closed _ _ begun next) applied
  refine ⟨same, ?_, hcls⟩
  rw [Heap.class?, Array.getElem?_eq_none (Nat.le_refl _), Option.map_none]

end Session

/-- **Receivers are kept.**  In every session, the scope that is made for a bound method binds
`this` to the receiver and nothing else for good: it is never the current scope, and no assignment
writes in it.  Wherever `this` is evaluated, it gives the receiver of the call of a method around
it.  A call of an initializer that gives anything gives its receiver, and a call of a class a new
instance of the class. -/
theorem receivers_are_kept (input : Input) (room : Option Nat) (clock : Nat)
    (commands : List Command) :
    let past := Past.after input room clock commands
    let finish := ((Course.new input room clock).follow commands).session.state
    (∀ scope method, past.Opened scope (.receiver method) → ∃ receiver,
      finish.scopes.BindsThis scope receiver ∧
      ∀ fuel task s, past.moments (.begins fuel task s) → scope < s.scopes.all.size →
        s.scopes.BindsThis scope receiver ∧ s.scope ≠ scope) ∧
    (∀ fuel target value s v s₁ s₂,
      past.moments (.begins (fuel + 1) (.eval (.assign target value)) s) →
      Eval.eval fuel value s = .ok v s₁ → Eval.writeVariable target v s₁ = .ok () s₂ →
      ∃ scope, s₂.scopes = s₁.scopes.define scope target.name.text v ∧
        ∀ method, ¬ past.Opened scope (.receiver method)) ∧
    (∀ fuel task s receiver closure, past.moments (.begins fuel task s) →
      (s.store.Holds (.callable (.bound ⟨receiver, .declared closure⟩)) ∨
        ∃ arguments line, task = .applyMethod ⟨receiver, .declared closure⟩ arguments line) →
      past.Opened closure.scope (.receiver closure.declaration) ∧
        s.scopes.BindsThis closure.scope receiver) ∧
    (∀ fuel id line s, past.moments (.begins (fuel + 1) (.eval (.this id line)) s) →
      ∃ hops call, s.resolution.binding id = .local (hops + 1) ∧
        s.scopes.ancestor? s.scope hops = some call ∧
        (∃ receiver method, past.Invokes call receiver method) ∧
        ∀ receiver method, past.Invokes call receiver method →
          Eval.eval (fuel + 1) (.this id line) s = .ok (.inst receiver) s ∧
          ∃ scopes, Addresses past s id ⟨.this id, "this", scopes⟩ ∧
            Occurrence.InCall ⟨.this id, "this", scopes⟩ hops method.declaration) ∧
    (∀ fuel receiver method arguments line s v s', method.name = initializerName →
      (past.moments (.begins fuel (.applyMethod ⟨receiver, method⟩ arguments line) s) →
        Eval.applyMethod fuel ⟨receiver, method⟩ arguments line s = .ok v s' →
        v = .inst receiver) ∧
      (past.moments
          (.begins fuel (.call (.callable (.bound ⟨receiver, method⟩)) arguments line) s) →
        Eval.call fuel (.callable (.bound ⟨receiver, method⟩)) arguments line s = .ok v s' →
        v = .inst receiver)) ∧
    ∀ fuel cls arguments line s v s',
      past.moments (.begins fuel (.call (.callable (.class cls)) arguments line) s) →
      Eval.call fuel (.callable (.class cls)) arguments line s = .ok v s' →
      v = .inst s.heap.instances.size ∧ s.heap.class? s.heap.instances.size = none ∧
        s'.heap.class? s.heap.instances.size = some cls := by
  intro past finish
  refine ⟨fun _ _ => Course.receiver_scope, fun _ _ _ _ _ _ _ => Course.assignment_misses,
    fun _ _ _ _ _ => Course.bound_method_scope, fun _ _ _ _ => Course.this_is_receiver,
    fun fuel receiver method arguments line s v s' initializer => ⟨fun begun answered => ?_,
      fun begun answered => ?_⟩, fun _ _ _ _ _ _ _ => Course.class_call⟩
  · exact Course.initializer_gives_receiver begun initializer answered
  · exact Course.initializer_call begun initializer answered

/-! ## 6. An initializer that is kept -/

namespace Receiver

/-- An initializer returns early, and is called by the class, through `super` and later on its own;
and it leaves a function behind that assigns to a parameter and evaluates `this`. -/
def text : String :=
  "class A \x7b init(a) \x7b fun f() \x7b a = this; return this; \x7d this.f = f; " ++
  "return; \x7d \x7d " ++
  "class B < A \x7b init() \x7b super.init(nil); \x7d \x7d " ++
  "var b = B(); var g = b.init; b.f(); g();"

/-- What the text says. -/
def program : List Stmt :=
  [.classDecl ⟨"A", 1⟩ none [⟨⟨"init", 1⟩, [⟨"a", 1⟩],
      [.funDecl ⟨⟨"f", 1⟩, [], [.expression (.assign ⟨2, ⟨"a", 1⟩⟩ (.this 1 1)),
          .ret 1 (some (.this 3 1))]⟩,
        .expression (.set (.this 4 1) ⟨"f", 1⟩ (.variable ⟨5, ⟨"f", 1⟩⟩)), .ret 1 none]⟩],
    .classDecl ⟨"B", 1⟩ (some ⟨6, ⟨"A", 1⟩⟩) [⟨⟨"init", 1⟩, [],
      [.expression (.call (.super 7 1 ⟨"init", 1⟩) [.literal .nil] 1)]⟩],
    .varDecl ⟨"b", 1⟩ (some (.call (.variable ⟨8, ⟨"B", 1⟩⟩) [] 1)),
    .varDecl ⟨"g", 1⟩ (some (.get (.variable ⟨9, ⟨"b", 1⟩⟩) ⟨"init", 1⟩)),
    .expression (.call (.get (.variable ⟨10, ⟨"b", 1⟩⟩) ⟨"f", 1⟩) [] 1),
    .expression (.call (.variable ⟨11, ⟨"g", 1⟩⟩) [] 1)]

/-- What has happened once it has run. -/
def past : Past := Past.after ⟨[], true⟩ none 0 [.run 40 text]

/-- The state then. -/
def finish : State := ((Course.new ⟨[], true⟩ none 0).follow [.run 40 text]).session.state

theorem moment_of (p : Moment → Bool)
    (found : ((Session.new ⟨[], true⟩ none 0).trace 40 program).any p = true) :
    ∃ m, past.moments m ∧ p m = true :=
  Course.moment_of_trace (.new ⟨[], true⟩ none 0) 40 text program (by cbv) p found

/-- Whether an evaluation gives an answer. -/
def answers {α : Type} : EStateM.Result Interrupt State α → Bool
  | .ok _ _ => true
  | .error _ _ => false

theorem eq_ok_of_answers {α : Type} {result : EStateM.Result Interrupt State α}
    (h : answers result = true) : ∃ v s, result = .ok v s := by
  cases result with
  | ok v s => exact ⟨v, s, rfl⟩
  | error interrupt s => cases h

def opensReceiver : Moment → Bool
  | .opens (.receiver _) _ => true
  | _ => false

/-- Whether an assignment begins that writes in a scope. -/
def assigns : Moment → Bool
  | .begins (fuel + 1) (.eval (.assign target value)) s =>
    match Eval.eval fuel value s with
    | .ok v s₁ => answers (Eval.writeVariable target v s₁)
    | .error _ _ => false
  | _ => false

def evaluatesThis : Moment → Bool
  | .begins (_ + 1) (.eval (.this _ _)) _ => true
  | _ => false

/-- Whether a declared initializer begins that gives something. -/
def initializes : Moment → Bool
  | .begins fuel (.applyMethod ⟨receiver, .declared closure⟩ arguments line) s =>
    closure.isInitializer && closure.name == initializerName &&
      answers (Eval.applyMethod fuel ⟨receiver, .declared closure⟩ arguments line s)
  | _ => false

/-- Whether a call of a bound initializer begins that gives something. -/
def callsInitializer : Moment → Bool
  | .begins fuel (.call (.callable (.bound method)) arguments line) s =>
    method.method.name == initializerName &&
      answers (Eval.call fuel (.callable (.bound method)) arguments line s)
  | _ => false

def callsClass : Moment → Bool
  | .begins fuel (.call (.callable (.class cls)) arguments line) s =>
    answers (Eval.call fuel (.callable (.class cls)) arguments line s)
  | _ => false

end Receiver

/-- The scopes of the initializer keep the receiver, the function that it leaves behind finds it,
and each call of the initializer gives it. -/
theorem initializer_keeps_receiver :
    (∃ scope method receiver, Receiver.past.Opened scope (.receiver method) ∧
      Receiver.finish.scopes.BindsThis scope receiver) ∧
    (∃ fuel target value s v s₁ s₂ scope,
      Receiver.past.moments (.begins (fuel + 1) (.eval (.assign target value)) s) ∧
      Eval.eval fuel value s = .ok v s₁ ∧ Eval.writeVariable target v s₁ = .ok () s₂ ∧
      s₂.scopes = s₁.scopes.define scope target.name.text v ∧
      ∀ method, ¬ Receiver.past.Opened scope (.receiver method)) ∧
    (∃ fuel id line s receiver method call,
      Receiver.past.moments (.begins (fuel + 1) (.eval (.this id line)) s) ∧
      Receiver.past.Invokes call receiver method ∧
      Eval.eval (fuel + 1) (.this id line) s = .ok (.inst receiver) s) ∧
    (∃ fuel receiver closure arguments line s s',
      Receiver.past.moments
        (.begins fuel (.applyMethod ⟨receiver, .declared closure⟩ arguments line) s) ∧
      s.scopes.BindsThis closure.scope receiver ∧
      Eval.applyMethod fuel ⟨receiver, .declared closure⟩ arguments line s =
        .ok (.inst receiver) s') ∧
    (∃ fuel receiver method arguments line s s',
      Receiver.past.moments
        (.begins fuel (.call (.callable (.bound ⟨receiver, method⟩)) arguments line) s) ∧
      Eval.call fuel (.callable (.bound ⟨receiver, method⟩)) arguments line s =
        .ok (.inst receiver) s') ∧
    ∃ fuel cls arguments line s s',
      Receiver.past.moments (.begins fuel (.call (.callable (.class cls)) arguments line) s) ∧
      Eval.call fuel (.callable (.class cls)) arguments line s =
        .ok (.inst s.heap.instances.size) s' := by
  obtain ⟨scopes, assignments, bound, this, initializers, classes⟩ :=
    receivers_are_kept ⟨[], true⟩ none 0 [.run 40 Receiver.text]
  refine ⟨?_, ?_, ?_, ?_, ?_, ?_⟩
  · obtain ⟨m, hm, hp⟩ := Receiver.moment_of Receiver.opensReceiver (by decide +kernel)
    unfold Receiver.opensReceiver at hp
    split at hp
    · rename_i method s
      have opened : Receiver.past.Opened s.scopes.all.size (.receiver method) := ⟨s, hm, rfl⟩
      obtain ⟨receiver, binds, -⟩ := scopes _ _ opened
      exact ⟨_, method, receiver, opened, binds⟩
    · cases hp
  · obtain ⟨m, hm, hp⟩ := Receiver.moment_of Receiver.assigns (by decide +kernel)
    unfold Receiver.assigns at hp
    split at hp
    · rename_i fuel target value s
      split at hp
      · rename_i v s₁ evaluated
        obtain ⟨⟨⟩, s₂, written⟩ := Receiver.eq_ok_of_answers hp
        obtain ⟨scope, same, misses⟩ :=
          assignments fuel target value s v s₁ s₂ hm evaluated written
        exact ⟨fuel, target, value, s, v, s₁, s₂, scope, hm, evaluated, written, same, misses⟩
      · cases hp
    · cases hp
  · obtain ⟨m, hm, hp⟩ := Receiver.moment_of Receiver.evaluatesThis (by decide +kernel)
    unfold Receiver.evaluatesThis at hp
    split at hp
    · rename_i fuel id line s
      obtain ⟨_, call, -, -, ⟨receiver, method, invoked⟩, gives⟩ := this fuel id line s hm
      exact ⟨fuel, id, line, s, receiver, method, call, hm, invoked,
        (gives receiver method invoked).1⟩
    · cases hp
  · obtain ⟨m, hm, hp⟩ := Receiver.moment_of Receiver.initializes (by decide +kernel)
    unfold Receiver.initializes at hp
    split at hp
    · rename_i fuel receiver closure arguments line s
      simp only [Bool.and_eq_true, beq_iff_eq] at hp
      obtain ⟨v, s', answered⟩ := Receiver.eq_ok_of_answers hp.2
      obtain rfl := (initializers fuel receiver (.declared closure) arguments line s v s'
        hp.1.2).1 hm answered
      exact ⟨fuel, receiver, closure, arguments, line, s, s', hm,
        (bound fuel _ s receiver closure hm (Or.inr ⟨arguments, line, rfl⟩)).2, answered⟩
    · cases hp
  · obtain ⟨m, hm, hp⟩ := Receiver.moment_of Receiver.callsInitializer (by decide +kernel)
    unfold Receiver.callsInitializer at hp
    split at hp
    · rename_i fuel method arguments line s
      simp only [Bool.and_eq_true, beq_iff_eq] at hp
      obtain ⟨receiver, method⟩ := method
      obtain ⟨v, s', answered⟩ := Receiver.eq_ok_of_answers hp.2
      obtain rfl := (initializers fuel receiver method arguments line s v s' hp.1).2 hm answered
      exact ⟨fuel, receiver, method, arguments, line, s, s', hm, answered⟩
    · cases hp
  · obtain ⟨m, hm, hp⟩ := Receiver.moment_of Receiver.callsClass (by decide +kernel)
    unfold Receiver.callsClass at hp
    split at hp
    · rename_i fuel cls arguments line s
      obtain ⟨v, s', answered⟩ := Receiver.eq_ok_of_answers hp
      obtain ⟨rfl, -, -⟩ := classes fuel cls arguments line s v s' hm answered
      exact ⟨fuel, cls, arguments, line, s, s', hm, answered⟩
    · cases hp

end Lox
