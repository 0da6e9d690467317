/-
# Every name is read where the text shows it

The resolution counts scopes in the text, evaluation follows links between scopes at run time.
Wherever a name is read in the course of a session the two agree (`Addresses`): the scopes around
the current one were made for the constructs around the node, one by one and in the same order, so
that the scope that the resolution points to is an instance of the very construct that declares the
name, and binds it.

`reads_are_addressed` says so of variables, `this` and `super`, and what evaluating them gives.  A
name with a local address is always found; one without is looked for among the globals, and only
there; and `super` can fail only for want of a method.
-/
import Mathlib
import Lox.Proofs.Eval.Trace
import Lox.Proofs.Session.Scoped

namespace Lox

open StaticScope

/-! ## 1. Instances of constructs -/

/-- A scope was made for a construct, and for no other one. -/
def Past.InstanceOf (past : Past) (scope : ScopeId) (origin : ScopeOrigin) : Prop :=
  past.Opened scope origin ∧ ∀ other, past.Opened scope other → other = origin

/-- In a state in which a node is evaluated, the runtime scopes are those that the text shows
around the occurrence of a name at the node. -/
structure Addresses (past : Past) (s : State) (id : Id) (o : Occurrence) : Prop where
  /-- It is an occurrence in a program that was accepted. -/
  occurs : past.Occurs o
  node : o.role.id? = some id
  /-- Scope by scope, the runtime scopes are instances of the static ones. -/
  mirrors : ∀ hops static, o.scopes[hops]? = some static → ∃ scope,
    s.scopes.ancestor? s.scope hops = some scope ∧ past.InstanceOf scope static.origin
  /-- The globals lie around them. -/
  outermost : s.scopes.ancestor? s.scope o.scopes.length = some globalScope
  /-- An address leads to the scope that declares the name, and that binds it. -/
  found : ∀ hops, s.resolution.binding id = .local hops →
    locate o.name o.scopes = some (hops, true) ∧
    ∃ static scope, o.scopes[hops]? = some static ∧ static.names.get? o.name = some true ∧
      s.scopes.ancestor? s.scope hops = some scope ∧ past.InstanceOf scope static.origin ∧
      s.scopes.binds scope o.name
  /-- A name has no address only if none of the scopes declares it. -/
  missing : s.resolution.binding id = .global → ∀ static ∈ o.scopes, static.names.get? o.name = none

theorem StaticScope.get?_of_locate_none {name : String} {scopes : List StaticScope}
    (h : locate name scopes = none) : ∀ static ∈ scopes, static.names.get? name = none := by
  induction scopes with
  | nil => exact fun _ hmem => by cases hmem
  | cons first outer ih =>
    simp only [locate] at h
    cases hn : first.names.get? name with
    | some complete =>
      rw [hn] at h
      cases h
    | none =>
      rw [hn] at h
      intro static hmem
      rcases List.mem_cons.1 hmem with rfl | hmem
      · exact hn
      · exact ih (Option.map_eq_none_iff.1 h) static hmem

section Addresses

variable {past earlier : Past} {s : State} {os : List Occurrence} {o : Occurrence} {id : Id}
  {lo hi : Nat}

/-- A scope that was opened for a construct in an earlier past is an instance of it. -/
theorem Past.Opened.instanceOf {scope : ScopeId} {origin : ScopeOrigin}
    (h : earlier.Opened scope origin) (before : earlier.Before past)
    (openings : Openings past.moments lo hi) : past.InstanceOf scope origin :=
  ⟨before.opened h, fun _ other => Past.Opened.origin_eq openings other (before.opened h)⟩

/-- Code that can be evaluated has its names where the text shows them. -/
theorem State.Ready.addresses (ready : s.Ready earlier o.scopes os) (before : earlier.Before past)
    (openings : Openings past.moments lo hi) (ho : o ∈ os) (hid : o.role.id? = some id)
    (complete : ∀ hops complete, locate o.name o.scopes = some (hops, complete) → complete = true) :
    Addresses past s id o := by
  have realizes := ready.placed.realizes
  obtain ⟨instances, outermost⟩ := realizes.instance_at
  obtain ⟨filed, -⟩ := ready.sound.filed o (ready.known o ho)
  have hbinding : s.resolution.binding id = o.binding := filed id hid
  refine {
    occurs := before.occurs (ready.known o ho)
    node := hid
    mirrors := fun hops static hstatic => ?_
    outermost := outermost
    found := fun hops hlocal => ?_
    missing := fun hglobal => ?_ }
  · obtain ⟨scope, hscope, opened⟩ := instances hops static hstatic
    exact ⟨scope, hscope, opened.instanceOf before openings⟩
  · rw [hbinding, Occurrence.binding] at hlocal
    split at hlocal
    · rename_i hops' completed located
      cases hlocal
      obtain rfl := complete _ _ located
      obtain ⟨scope, static, hscope, hstatic, opened, names, binds⟩ := realizes.bound located
      exact ⟨located, static, scope, hstatic, names, hscope, opened.instanceOf before openings,
        binds rfl⟩
    · cases hlocal
  · rw [hbinding, Occurrence.binding] at hglobal
    split at hglobal
    · cases hglobal
    · rename_i located
      exact get?_of_locate_none located

end Addresses

/-! ## 2. Reads -/

/-- A scope that binds a name has a value for it. -/
theorem Scopes.getAt?_of_binds {scopes : Scopes Value} {scope target : ScopeId} {hops : Nat}
    {name : String} (htarget : scopes.ancestor? scope hops = some target)
    (binds : scopes.binds target name) : ∃ value, scopes.get? target name = some value ∧
      scopes.getAt? scope hops name = some value := by
  obtain ⟨value, hvalue⟩ := Option.isSome_iff_exists.1 binds
  exact ⟨value, hvalue, by rw [getAt?, htarget, Option.bind_some, hvalue]⟩

namespace Eval

variable {s : State} {id : Id} {name : String}

theorem eval_variable (fuel : Nat) (v : Variable) :
    eval (fuel + 1) (.variable v) = readVariable v.id v.name.text v.name.line := by
  simp only [eval]

theorem eval_this (fuel : Nat) (id : Id) (line : Nat) :
    eval (fuel + 1) (.this id line) = readVariable id "this" line := by
  simp only [eval]

theorem eval_super (fuel : Nat) (id : Id) (line : Nat) (method : Name) :
    eval (fuel + 1) (.super id line method) = superMethod id line method := by
  simp only [eval]

theorem readVariable_local {hops : Nat} {value : Value} (line : Nat)
    (hbinding : s.resolution.binding id = .local hops)
    (found : s.scopes.getAt? s.scope hops name = some value) :
    readVariable id name line s = .ok value s := by
  rw [readVariable, look_bind]
  simp only [hbinding, found]
  rfl

/-- A name without an address is looked for among the globals, and only there. -/
theorem readVariable_global (line : Nat) (hbinding : s.resolution.binding id = .global) :
    readVariable id name line s =
      match s.scopes.get? globalScope name with
      | some value => .ok value s
      | none => .error (.error ⟨.undefinedVariable name, line⟩) s := by
  rw [readVariable, look_bind]
  simp only [hbinding]
  cases s.scopes.get? globalScope name <;> rfl

/-- Once the superclass and the receiver are found, only the method can be missing. -/
theorem superMethod_of_found {inner : Nat} {superclass : Class} {receiver : InstanceId}
    (line : Nat) (method : Name) (hbinding : s.resolution.binding id = .local (inner + 1))
    (hsuper : s.scopes.getAt? s.scope (inner + 1) "super" = some (.callable (.class superclass)))
    (hthis : s.scopes.getAt? s.scope inner "this" = some (.inst receiver)) :
    superMethod id line method s =
      match superclass.findMethod? method.text with
      | some found => ((fun bound => .callable (.bound bound)) <$> bindMethod receiver found) s
      | none => .error (.error ⟨.undefinedProperty method.text, method.line⟩) s := by
  rw [superMethod, look_bind]
  simp only [hbinding, hsuper, hthis]
  cases superclass.findMethod? method.text <;> rfl

/-- Binding a method to an instance always gives a bound method. -/
theorem bindMethod_isOk (receiver : InstanceId) (method : Method) (s : State) :
    ∃ bound s', bindMethod receiver method s = .ok bound s' := by
  cases method <;> exact ⟨_, _, rfl⟩

end Eval

/-! ## 3. The reads of a session -/

section Session

variable {input : Input} {room : Option Nat} {clock : Nat} {commands : List Command}
  {fuel : Nat} {s : State}

/-- Whatever is evaluated can be evaluated. -/
theorem Course.ready_eval {e : Expr}
    (begun : (Past.after input room clock commands).moments (.begins fuel (.eval e) s)) :
    ∃ earlier stack, Past.Before earlier (Past.after input room clock commands) ∧
      s.Ready earlier stack (Occurrence.ofExpr stack e) := by
  obtain ⟨earlier, stack, h⟩ :=
    (Course.scoped input room clock commands).begun fuel (.eval e) s begun
  exact ⟨earlier, stack, h.before, h.expects⟩

theorem Course.variable_addressed {v : Variable}
    (begun : (Past.after input room clock commands).moments
      (.begins (fuel + 1) (.eval (.variable v)) s)) :
    ∃ scopes,
      Addresses (Past.after input room clock commands) s v.id
        ⟨.reads v.id, v.name.text, scopes⟩ := by
  obtain ⟨earlier, stack, before, ready⟩ := Course.ready_eval begun
  have ho : (⟨.reads v.id, v.name.text, stack⟩ : Occurrence) ∈
      Occurrence.ofExpr stack (.variable v) :=
    List.mem_singleton_self _
  obtain ⟨-, admissible⟩ := ready.sound.filed _ (ready.known _ ho)
  exact ⟨stack, ready.addresses (o := ⟨.reads v.id, v.name.text, stack⟩) before
    (Course.openings input room clock commands) ho rfl admissible⟩

theorem Course.this_addressed {id : Id} {line : Nat}
    (begun : (Past.after input room clock commands).moments
      (.begins (fuel + 1) (.eval (.this id line)) s)) :
    ∃ scopes hops,
      Addresses (Past.after input room clock commands) s id ⟨.this id, "this", scopes⟩ ∧
      s.resolution.binding id = .local hops := by
  obtain ⟨earlier, stack, before, ready⟩ := Course.ready_eval begun
  have ho : (⟨.this id, "this", stack⟩ : Occurrence) ∈ Occurrence.ofExpr stack (.this id line) :=
    List.mem_singleton_self _
  obtain ⟨filed, hops, located⟩ := ready.sound.filed _ (ready.known _ ho)
  refine ⟨stack, hops, ready.addresses (o := ⟨.this id, "this", stack⟩) before
    (Course.openings input room clock commands) ho rfl fun _ _ h => ?_, ?_⟩
  · cases located.symm.trans h
    rfl
  · rw [filed id rfl, Occurrence.binding]
    dsimp only at located ⊢
    rw [located]

theorem Course.super_addressed {id : Id} {line : Nat} {method : Name}
    (begun : (Past.after input room clock commands).moments
      (.begins (fuel + 1) (.eval (.super id line method)) s)) :
    ∃ scopes inner,
      Addresses (Past.after input room clock commands) s id ⟨.super id, "super", scopes⟩ ∧
      s.resolution.binding id = .local (inner + 1) ∧
      (∃ superclass, s.scopes.getAt? s.scope (inner + 1) "super" =
        some (.callable (.class superclass))) ∧
      ∃ receiver, s.scopes.getAt? s.scope inner "this" = some (.inst receiver) := by
  obtain ⟨earlier, stack, before, ready⟩ := Course.ready_eval begun
  have ho : (⟨.super id, "super", stack⟩ : Occurrence) ∈
      Occurrence.ofExpr stack (.super id line method) :=
    List.mem_singleton_self _
  obtain ⟨filed, inner, locatedThis, locatedSuper⟩ := ready.sound.filed _ (ready.known _ ho)
  refine ⟨stack, inner, ready.addresses (o := ⟨.super id, "super", stack⟩) before
    (Course.openings input room clock commands) ho rfl fun _ _ h => ?_, ?_, ?_, ?_⟩
  · cases locatedSuper.symm.trans h
    rfl
  · rw [filed id rfl, Occurrence.binding]
    dsimp only at locatedSuper ⊢
    rw [locatedSuper]
  · obtain ⟨target, _, htarget, -, -, -, binds⟩ := ready.placed.realizes.bound locatedSuper
    obtain ⟨value, hvalue, hat⟩ := Scopes.getAt?_of_binds htarget (binds rfl)
    obtain ⟨superclass, rfl⟩ := ready.sound.store.super target value hvalue
    exact ⟨superclass, hat⟩
  · obtain ⟨target, _, htarget, -, -, -, binds⟩ := ready.placed.realizes.bound locatedThis
    obtain ⟨value, hvalue, hat⟩ := Scopes.getAt?_of_binds htarget (binds rfl)
    obtain ⟨receiver, _, rfl, -⟩ := ready.sound.store.this target value hvalue
    exact ⟨receiver, hat⟩

/-- An address leads to a value. -/
theorem Addresses.getAt? {past : Past} {id : Id} {o : Occurrence} (h : Addresses past s id o)
    {hops : Nat} (hbinding : s.resolution.binding id = .local hops) :
    ∃ value, s.scopes.getAt? s.scope hops o.name = some value := by
  obtain ⟨-, _, scope, -, -, hscope, -, binds⟩ := h.found hops hbinding
  obtain ⟨value, -, hat⟩ := Scopes.getAt?_of_binds hscope binds
  exact ⟨value, hat⟩

end Session

/-- **Reads are addressed.**  Wherever a session evaluates a variable, `this` or `super`, the
runtime scopes are those that the text shows around it.  A variable with a local address and `this`
give the value found there; a variable without an address gives the value of the global, or fails
as undefined; and `super` gives a bound method, or fails because the superclass has no such
method. -/
theorem reads_are_addressed (input : Input) (room : Option Nat) (clock : Nat)
    (commands : List Command) :
    let past := Past.after input room clock commands
    (∀ fuel v s, past.moments (.begins (fuel + 1) (.eval (.variable v)) s) →
      (∃ scopes, Addresses past s v.id ⟨.reads v.id, v.name.text, scopes⟩) ∧
      (∀ hops, s.resolution.binding v.id = .local hops →
        ∃ value, s.scopes.getAt? s.scope hops v.name.text = some value ∧
          Eval.eval (fuel + 1) (.variable v) s = .ok value s) ∧
      (s.resolution.binding v.id = .global →
        Eval.eval (fuel + 1) (.variable v) s =
          match s.scopes.get? globalScope v.name.text with
          | some value => .ok value s
          | none => .error (.error ⟨.undefinedVariable v.name.text, v.name.line⟩) s)) ∧
    (∀ fuel id line s, past.moments (.begins (fuel + 1) (.eval (.this id line)) s) →
      (∃ scopes, Addresses past s id ⟨.this id, "this", scopes⟩) ∧
      ∃ hops value, s.resolution.binding id = .local hops ∧
        s.scopes.getAt? s.scope hops "this" = some value ∧
        Eval.eval (fuel + 1) (.this id line) s = .ok value s) ∧
    ∀ fuel id line method s,
      past.moments (.begins (fuel + 1) (.eval (.super id line method)) s) →
      (∃ scopes, Addresses past s id ⟨.super id, "super", scopes⟩) ∧
      ∃ inner superclass receiver, s.resolution.binding id = .local (inner + 1) ∧
        s.scopes.getAt? s.scope (inner + 1) "super" = some (.callable (.class superclass)) ∧
        s.scopes.getAt? s.scope inner "this" = some (.inst receiver) ∧
        match superclass.findMethod? method.text with
        | some found => ∃ bound s', Eval.bindMethod receiver found s = .ok bound s' ∧
          Eval.eval (fuel + 1) (.super id line method) s = .ok (.callable (.bound bound)) s'
        | none => Eval.eval (fuel + 1) (.super id line method) s =
          .error (.error ⟨.undefinedProperty method.text, method.line⟩) s := by
  refine ⟨fun fuel v s begun => ?_, fun fuel id line s begun => ?_,
    fun fuel id line method s begun => ?_⟩
  · obtain ⟨scopes, addressed⟩ := Course.variable_addressed begun
    refine ⟨⟨scopes, addressed⟩, fun hops hlocal => ?_, fun hglobal => ?_⟩
    · obtain ⟨value, hat⟩ := addressed.getAt? hlocal
      rw [Eval.eval_variable]
      exact ⟨value, hat, Eval.readVariable_local v.name.line hlocal hat⟩
    · rw [Eval.eval_variable]
      exact Eval.readVariable_global v.name.line hglobal
  · obtain ⟨scopes, hops, addressed, hlocal⟩ := Course.this_addressed begun
    obtain ⟨value, hat⟩ := addressed.getAt? hlocal
    rw [Eval.eval_this]
    exact ⟨⟨scopes, addressed⟩, hops, value, hlocal, hat, Eval.readVariable_local line hlocal hat⟩
  · obtain ⟨scopes, inner, addressed, hlocal, ⟨superclass, hsuper⟩, receiver, hthis⟩ :=
      Course.super_addressed begun
    refine ⟨⟨scopes, addressed⟩, inner, superclass, receiver, hlocal, hsuper, hthis, ?_⟩
    rw [Eval.eval_super]
    have answer := Eval.superMethod_of_found line method hlocal hsuper hthis
    cases hfound : superclass.findMethod? method.text with
    | none =>
      rw [hfound] at answer
      exact answer
    | some found =>
      rw [hfound] at answer
      obtain ⟨bound, s', hbound⟩ := Eval.bindMethod_isOk receiver found s
      refine ⟨bound, s', hbound, answer.trans ?_⟩
      change EStateM.map _ (Eval.bindMethod receiver found) s = _
      unfold EStateM.map
      rw [hbound]

/-! ## 4. A session with reads of every kind -/

namespace Address

/-- A class whose initializer reads what it inherits, its receiver and its parameter. -/
def text : String :=
  "class A \x7b init() \x7b\x7d \x7d " ++
  "class B < A \x7b init(a) \x7b super.init; this; a; \x7d \x7d B(nil);"

/-- What the text says. -/
def program : List Stmt :=
  [.classDecl ⟨"A", 1⟩ none [⟨⟨"init", 1⟩, [], []⟩],
    .classDecl ⟨"B", 1⟩ (some ⟨0, ⟨"A", 1⟩⟩) [⟨⟨"init", 1⟩, [⟨"a", 1⟩],
      [.expression (.super 1 1 ⟨"init", 1⟩), .expression (.this 2 1),
        .expression (.variable ⟨3, ⟨"a", 1⟩⟩)]⟩],
    .expression (.call (.variable ⟨4, ⟨"B", 1⟩⟩) [.literal .nil] 1)]

/-- Whether a read of a variable with a local address begins. -/
def readsLocal : Moment → Bool
  | .begins (_ + 1) (.eval (.variable v)) s => s.resolution.binding v.id != .global
  | _ => false

def readsThis : Moment → Bool
  | .begins (_ + 1) (.eval (.this _ _)) _ => true
  | _ => false

def readsSuper : Moment → Bool
  | .begins (_ + 1) (.eval (.super _ _ _)) _ => true
  | _ => false

/-- What has happened once it has run. -/
def past : Past := Past.after ⟨[], true⟩ none 0 [.run 30 text]

theorem moment_of (p : Moment → Bool)
    (found : ((Session.new ⟨[], true⟩ none 0).trace 30 program).any p = true) :
    ∃ m, past.moments m ∧ p m = true :=
  Course.moment_of_trace (.new ⟨[], true⟩ none 0) 30 text program (by cbv) p found

end Address

/-- The initializer finds its parameter, its receiver and the method of the superclass. -/
theorem initializer_reads_are_addressed :
    (∃ fuel v s, Address.past.moments (.begins (fuel + 1) (.eval (.variable v)) s) ∧
      ∃ hops value, s.resolution.binding v.id = .local hops ∧
        Eval.eval (fuel + 1) (.variable v) s = .ok value s) ∧
    (∃ fuel id line s, Address.past.moments (.begins (fuel + 1) (.eval (.this id line)) s) ∧
      ∃ value, Eval.eval (fuel + 1) (.this id line) s = .ok value s) ∧
    ∃ fuel id line method s,
      Address.past.moments (.begins (fuel + 1) (.eval (.super id line method)) s) ∧
      ∃ scopes, Addresses Address.past s id ⟨.super id, "super", scopes⟩ := by
  obtain ⟨onVariable, onThis, onSuper⟩ :=
    reads_are_addressed ⟨[], true⟩ none 0 [.run 30 Address.text]
  refine ⟨?_, ?_, ?_⟩
  · obtain ⟨m, hm, hp⟩ := Address.moment_of Address.readsLocal (by decide +kernel)
    unfold Address.readsLocal at hp
    split at hp
    · rename_i fuel v s
      cases hbinding : s.resolution.binding v.id with
      | global => simp [hbinding] at hp
      | «local» hops =>
        obtain ⟨value, -, answer⟩ := (onVariable fuel v s hm).2.1 hops hbinding
        exact ⟨fuel, v, s, hm, hops, value, hbinding, answer⟩
    · cases hp
  · obtain ⟨m, hm, hp⟩ := Address.moment_of Address.readsThis (by decide +kernel)
    unfold Address.readsThis at hp
    split at hp
    · rename_i fuel id line s
      obtain ⟨-, _, value, -, -, answer⟩ := onThis fuel id line s hm
      exact ⟨fuel, id, line, s, hm, value, answer⟩
    · cases hp
  · obtain ⟨m, hm, hp⟩ := Address.moment_of Address.readsSuper (by decide +kernel)
    unfold Address.readsSuper at hp
    split at hp
    · rename_i fuel id line method s
      exact ⟨fuel, id, line, method, s, hm, (onSuper fuel id line method s hm).1⟩
    · cases hp

end Lox
