/-
# `super` goes up from the class of the method

A method may be inherited, so the class that declares it need not be that of the receiver; and its
body may hold functions that outlive the call, while the names of the classes come to stand for
something else.  Still, wherever a session evaluates a `super`, a scope for a call of a method lies
around it, and that method is one that its class was declared with, along with the superclass
(`Past.MethodCall`).  `super_goes_up` says what the result is: the first definition from the
superclass upward, bound to the receiver of the call, or the error that there is none.
-/
import Mathlib
import Lox.Proofs.Scoping.Address
import Lox.Proofs.Session.Anchored

namespace Lox

/-! ## 1. Binding what is found -/

/-- What a method becomes when it is read from an instance: a declared one gets a scope that binds
`this`, in the scope that it keeps. -/
inductive Method.BoundTo (scopes : Scopes Value) (receiver : InstanceId) :
    Method → BoundMethod → Prop where
  | builtin (method : BuiltinMethod) :
      BoundTo scopes receiver (.builtin method) ⟨receiver, .builtin method⟩
  | declared {closure : Closure} {stamp : Nat} {scope : ScopeId}
      (enclosing : scopes.enclosing? scope = some closure.scope)
      (this : scopes.get? scope "this" = some (.inst receiver)) :
      BoundTo scopes receiver (.declared closure)
        ⟨receiver, .declared { closure with stamp := stamp, scope := scope }⟩

namespace Eval

variable {s : State} {id : Id}

theorem bindMethod_eq_ok (receiver : InstanceId) (method : Method) (s : State) :
    ∃ bound s', bindMethod receiver method s = .ok bound s' ∧
      method.BoundTo s'.scopes receiver bound := by
  cases method with
  | builtin method => exact ⟨_, s, rfl, .builtin method⟩
  | declared closure =>
    refine ⟨_, _, rfl, .declared ?_ ?_⟩
    · exact (Store.enclosing?_opened s.store closure.scope "this" _ _).trans (if_pos rfl)
    · exact (Store.get?_opened s.store closure.scope "this" _ _ _).trans (if_pos ⟨rfl, rfl⟩)

/-- What evaluating a `super` gives, once the superclass and the receiver are found: a method of the
first class along the chain that defines one, or else an error. -/
theorem eval_super_of_found {inner : Nat} {superclass : Class} {receiver : InstanceId}
    (fuel line : Nat) (name : Name) (hbinding : s.resolution.binding id = .local (inner + 1))
    (hsuper : s.scopes.getAt? s.scope (inner + 1) "super" = some (.callable (.class superclass)))
    (hthis : s.scopes.getAt? s.scope inner "this" = some (.inst receiver)) :
    (∀ found, superclass.chain.findSome? (Class.own? name.text) = some found →
      ∃ bound s', eval (fuel + 1) (.super id line name) s = .ok (.callable (.bound bound)) s' ∧
        found.BoundTo s'.scopes receiver bound) ∧
    ((∃ missing line' s', eval (fuel + 1) (.super id line name) s =
        .error (.error ⟨.undefinedProperty missing, line'⟩) s') ↔
      ∀ level ∈ superclass.chain, level.own? name.text = none) := by
  have answer := superMethod_of_found line name hbinding hsuper hthis
  rw [Class.findMethod?_eq] at answer
  rw [eval_super, ← List.findSome?_eq_none_iff]
  cases hfound : superclass.chain.findSome? (Class.own? name.text) with
  | none =>
    rw [hfound] at answer
    exact ⟨nofun, fun _ => rfl, fun _ => ⟨_, _, _, answer⟩⟩
  | some method =>
    obtain ⟨bound, s', hbound, boundTo⟩ := bindMethod_eq_ok receiver method s
    rw [hfound] at answer
    dsimp only at answer
    have given : superMethod id line name s = .ok (.callable (.bound bound)) s' := by
      rw [answer]
      change EStateM.map _ (bindMethod receiver method) s = _
      unfold EStateM.map
      rw [hbound]
    refine ⟨fun found same => ?_, ?_, nofun⟩
    · cases same
      exact ⟨bound, s', given, boundTo⟩
    · rintro ⟨missing, line', s'', error⟩
      cases given.symm.trans error

/-- Parameters are bound without fail, and no scope is linked anew. -/
theorem defineAll_eq_ok (scope : ScopeId) (params : List Name) (arguments : List Value)
    (s : State) : ∃ s', defineAll scope params arguments s = .ok () s' ∧
      ∀ other, s'.scopes.enclosing? other = s.scopes.enclosing? other := by
  induction params generalizing arguments s with
  | nil => exact ⟨s, rfl, fun _ => rfl⟩
  | cons name rest ih =>
    cases arguments with
    | nil => exact ⟨s, rfl, fun _ => rfl⟩
    | cons value values =>
      obtain ⟨s', done, same⟩ := ih values
        { s with scopes := s.scopes.define scope name.text value }
      exact ⟨s', done, fun other => (same other).trans (Scopes.enclosing?_define ..)⟩

end Eval

/-! ## 2. Calls of methods -/

/-- A scope for a call of a method lies in the scope of the receiver. -/
structure Store.Calls (past : Past) (σ : Store) (call : ScopeId) (receiver : InstanceId)
    (method : Closure) : Prop where
  enclosing : σ.scopes.enclosing? call = some method.scope
  this : σ.scopes.get? method.scope "this" = some (.inst receiver)
  call : past.Opened call (.call method.declaration)
  receiver : past.Opened method.scope (.receiver method.declaration)

section Calls

variable {past : Past} {finish : State} {call : ScopeId} {receiver : InstanceId} {method : Closure}

/-- Whenever a method is called, its scope is made as it should be. -/
theorem Past.Invokes.calls (h : past.Invokes call receiver method)
    (closed : ∀ m m', past.moments m → m.Next m' → past.moments m')
    (lasts : (anchoring past).Lasts past.moments finish) :
    finish.store.Calls past call receiver method := by
  obtain ⟨fuel, arguments, line, s, rfl, begun⟩ := h
  obtain ⟨⟨-, given⟩, kept⟩ := lasts _ _ s begun
  obtain ⟨this, receiverOpened⟩ := given (.callable (.bound ⟨receiver, .declared method⟩))
    List.mem_cons_self
  have applied : past.moments (.begins (fuel + 1) (.applyClosure method arguments) s) :=
    closed _ _ begun (.mk (.begins rfl))
  have callOpened : past.moments (.opens (.call method.declaration) s) :=
    closed _ _ applied (.mk .opening)
  -- the body begins in the new scope
  obtain ⟨s', bound, same⟩ := Eval.defineAll_eq_ok s.scopes.all.size method.declaration.params
    arguments { s with scopes := (s.scopes.add (some method.scope)).2 }
  have entered : (Frame.scope s.scopes.all.size).enter s' =
      .ok { s' with scope := s.scopes.all.size } := rfl
  obtain ⟨-, keptBody⟩ := lasts _ _ _ (closed _ _ applied (.mk (.act rfl (.act bound
    (.begins entered)))))
  have link : s'.scopes.enclosing? s.scopes.all.size = some method.scope := by
    rw [same, Scopes.enclosing?_add, if_pos rfl]
  exact {
    enclosing := (keptBody.store.enclosing _ (Scopes.lt_size_of_enclosing? link)).trans link
    this := (kept.store.reserved _ _ (Scopes.lt_size_of_get? this) reserved_this).trans this
    call := ⟨s, callOpened, rfl⟩
    receiver := receiverOpened }

/-- A call that is seen later has been seen in the same way before. -/
theorem Store.Calls.back {σ σ' : Store} (h : σ'.Calls past call receiver method)
    (retains : σ.Retains σ') {scope : ScopeId} {found : InstanceId}
    (link : σ.scopes.enclosing? call = some scope)
    (this : σ.scopes.get? scope "this" = some (.inst found)) :
    σ.Calls past call receiver method ∧ method.scope = scope ∧ receiver = found := by
  have linked := retains.enclosing call (Scopes.lt_size_of_enclosing? link)
  obtain rfl := Option.some.inj (h.enclosing.symm.trans (linked.trans link))
  have kept := retains.reserved _ _ (Scopes.lt_size_of_get? this) reserved_this
  cases h.this.symm.trans (kept.trans this)
  exact ⟨⟨link, this, h.call, h.receiver⟩, rfl, rfl⟩

end Calls

/-- A scope around the current one is that of a call.  The method is one that a class was declared
with, together with a superclass, and the receiver is an instance of that class or of one below
it. -/
structure Past.MethodCall (past : Past) (s : State) (call : ScopeId) (receiver : InstanceId)
    (method : Closure) (methods : List FunDecl) (info : ClassInfo) (superclass : Class) : Prop where
  /-- Around the scope of the call is that of `this`. -/
  enclosing : s.scopes.enclosing? call = some method.scope
  this : s.scopes.get? method.scope "this" = some (.inst receiver)
  declared : method.declaration ∈ methods
  derives : past.Derives info superclass methods
  /-- The method has been read from the class, and around the scope of `this` is the one that the
  class has for `super`. -/
  own : ∃ name original, info.methods.get? name = some original ∧
    original.declaration = method.declaration ∧
    s.scopes.enclosing? method.scope = some original.scope ∧
    s.scopes.get? original.scope "super" = some (.callable (.class superclass))
  /-- From the superclass up there is neither the class itself nor one that is below it. -/
  below : ∃ cls lower, s.heap.class? receiver = some cls ∧
    cls.chain = lower ++ .derived info superclass :: superclass.chain ∧
    ∀ level ∈ superclass.chain, level ∉ lower ∧ level ≠ .derived info superclass

/-- The method that is called has been read from a class that the receiver is an instance of. -/
theorem State.Anchored.methodCall {past : Past} {s : State} (anchored : s.Anchored past)
    {lo hi : Nat} (openings : Openings past.moments lo hi) {call : ScopeId} {receiver : InstanceId}
    {method : Closure} (calls : s.store.Calls past call receiver method) {cls superclass : Class}
    {info : ClassInfo} {name : String} {original : Closure}
    (receives : s.store.Receives past method.scope receiver cls (.derived info superclass) name
      original) :
    ∃ methods outer, past.MethodCall s call receiver method methods info superclass ∧
      s.scopes.enclosing? method.scope = some outer ∧
      past.Opened outer (.superclass methods) := by
  have same : original.declaration = method.declaration :=
    ScopeOrigin.receiver.inj (Past.Opened.origin_eq openings receives.opened calls.receiver)
  obtain ⟨super, methods, declared, opened, derives⟩ := (anchored.store.values _
    (.class receives.class) _ receives.above name original receives.own).super
  obtain ⟨lower, chain⟩ := Class.chain_suffix_of_mem receives.above
  have once : (lower ++ Class.derived info superclass :: superclass.chain).Nodup :=
    chain.symm ▸ cls.nodup_chain
  obtain ⟨-, unlike, apart⟩ := List.nodup_append.1 once
  refine ⟨methods, original.scope, ?_, receives.enclosing, opened⟩
  exact {
    enclosing := calls.enclosing
    this := calls.this
    declared := same ▸ declared
    derives := derives
    own := ⟨name, original, receives.own, same, receives.enclosing, super⟩
    below := ⟨cls, lower, receives.class, chain.symm, fun level above =>
      ⟨fun mem => apart level mem level (List.mem_cons_of_mem _ above) rfl, fun same =>
        (List.nodup_cons.1 unlike).1 (same ▸ above)⟩⟩ }

/-! ## 3. The places of `super` -/

/-- A place in a method of a class with a superclass: so many scopes out lies the scope of the
method, and next to it those of `this` and `super`. -/
structure Occurrence.InMethod (o : Occurrence) (hops : Nat) (method : FunDecl)
    (methods : List FunDecl) : Prop where
  call : (o.scopes.map StaticScope.origin)[hops]? = some (.call method)
  this : (o.scopes.map StaticScope.origin)[hops + 1]? = some (.receiver method)
  super : (o.scopes.map StaticScope.origin)[hops + 2]? = some (.superclass methods)

/-- The scope so many links out was made for the construct that the text shows there. -/
theorem Addresses.origin_at {past : Past} {s : State} {id : Id} {o : Occurrence}
    (h : Addresses past s id o) {hops : Nat} (inside : hops < o.scopes.length) {scope : ScopeId}
    (reached : s.scopes.ancestor? s.scope hops = some scope) {origin : ScopeOrigin}
    (opened : past.Opened scope origin) :
    (o.scopes.map StaticScope.origin)[hops]? = some origin := by
  have found := List.getElem?_eq_getElem inside
  obtain ⟨scope', reached', -, only⟩ := h.mirrors hops _ found
  obtain rfl := Option.some.inj (reached.symm.trans reached')
  rw [List.getElem?_map, found, only origin opened]
  rfl

/-- The scopes of a method lie in the text as they lie at run time. -/
theorem Addresses.inMethod {past : Past} {s : State} {id : Id} {o : Occurrence}
    (h : Addresses past s id o) {hops : Nat} (local_ : s.resolution.binding id = .local (hops + 2))
    {call outer : ScopeId} {receiver : InstanceId} {method : Closure} {methods : List FunDecl}
    (reached : s.scopes.ancestor? s.scope hops = some call)
    (calls : s.store.Calls past call receiver method)
    (around : s.scopes.enclosing? method.scope = some outer)
    (opened : past.Opened outer (.superclass methods)) :
    o.InMethod hops method.declaration methods := by
  obtain ⟨-, static, -, found, -⟩ := h.found _ local_
  obtain ⟨inside, -⟩ := List.getElem?_eq_some_iff.1 found
  have reachedThis : s.scopes.ancestor? s.scope (hops + 1) = some method.scope := by
    rw [Scopes.ancestor?_succ, reached]
    exact calls.enclosing
  have reachedSuper : s.scopes.ancestor? s.scope (hops + 2) = some outer := by
    rw [Scopes.ancestor?_succ, reachedThis]
    exact around
  exact {
    call := h.origin_at (by omega) reached calls.call
    this := h.origin_at (by omega) reachedThis calls.receiver
    super := h.origin_at inside reachedSuper opened }

/-- **`super` goes up.**  Wherever a session evaluates a `super`, it is in the call of a method, or
in a function that was made in one; and whichever call made the scope, the result is the first
definition from the superclass upward, bound to the receiver of the call.  There is an error, that
of a missing property, just if no class from there upward has a definition. -/
theorem super_goes_up (input : Input) (room : Option Nat) (clock : Nat) (commands : List Command) :
    let past := Past.after input room clock commands
    ∀ fuel id line name s, past.moments (.begins (fuel + 1) (.eval (.super id line name)) s) →
      ∃ hops call, s.resolution.binding id = .local (hops + 2) ∧
        s.scopes.ancestor? s.scope hops = some call ∧
        (∃ receiver method, past.Invokes call receiver method) ∧
        ∀ receiver method, past.Invokes call receiver method →
          ∃ scopes methods info superclass,
            Addresses past s id ⟨.super id, "super", scopes⟩ ∧
            Occurrence.InMethod ⟨.super id, "super", scopes⟩ hops method.declaration methods ∧
            past.MethodCall s call receiver method methods info superclass ∧
            (∀ found, superclass.chain.findSome? (Class.own? name.text) = some found →
              ∃ bound s', Eval.eval (fuel + 1) (.super id line name) s =
                .ok (.callable (.bound bound)) s' ∧ found.BoundTo s'.scopes receiver bound) ∧
            ((∃ missing line' s', Eval.eval (fuel + 1) (.super id line name) s =
                .error (.error ⟨.undefinedProperty missing, line'⟩) s') ↔
              ∀ level ∈ superclass.chain, level.own? name.text = none) := by
  intro past fuel id line name s begun
  have closed := (Course.scoped input room clock commands).closed
  have lasts := (Course.anchored input room clock commands).lasts
  obtain ⟨scopes, inner, addressed, hlocal, ⟨superclass, hsuper⟩, receiver, hthis⟩ :=
    Course.super_addressed begun
  obtain ⟨⟨anchored, -⟩, kept⟩ := lasts _ _ _ begun
  obtain ⟨scope, cls, info, key, original, atThis, this, receives⟩ := anchored.super hsuper hthis
  cases inner with
  | zero =>
    -- `this` is not bound in the current scope
    cases atThis
    cases (anchored.plain.get?_eq_none reserved_this).symm.trans this
  | succ hops =>
    rw [Scopes.ancestor?_succ] at atThis
    obtain ⟨call, reached, link⟩ := Option.bind_eq_some_iff.1 atThis
    obtain ⟨method, invoked, -⟩ := anchored.store.calls call scope receiver link this
    refine ⟨hops, call, hlocal, reached, ⟨receiver, method, invoked⟩, ?_⟩
    intro other method invoked
    obtain ⟨calls, rfl, rfl⟩ := (invoked.calls closed lasts).back kept.store link this
    obtain ⟨methods, outer, methodCall, around, opened⟩ := anchored.methodCall
      (Course.openings input room clock commands) calls receives
    exact ⟨scopes, methods, info, superclass, addressed,
      addressed.inMethod hlocal reached calls around opened, methodCall,
      Eval.eval_super_of_found fuel line name hlocal hsuper hthis⟩

/-! ## 4. A function that is kept -/

namespace Dispatch

/-- A method makes a function that evaluates a `super`.  The method is inherited by a class below,
and when the function is called the names of the classes above stand for something else. -/
def text : String :=
  "class A \x7b m(a) \x7b\x7d \x7d " ++
  "class B < A \x7b m() \x7b\x7d f() \x7b fun g() \x7b super.m; \x7d return g; \x7d \x7d " ++
  "class C < B \x7b m() \x7b\x7d \x7d var c = C(); A = nil; B = nil; c.f()();"

/-- What the text says. -/
def program : List Stmt :=
  [.classDecl ⟨"A", 1⟩ none [⟨⟨"m", 1⟩, [⟨"a", 1⟩], []⟩],
    .classDecl ⟨"B", 1⟩ (some ⟨0, ⟨"A", 1⟩⟩) [⟨⟨"m", 1⟩, [], []⟩, ⟨⟨"f", 1⟩, [],
      [.funDecl ⟨⟨"g", 1⟩, [], [.expression (.super 1 1 ⟨"m", 1⟩)]⟩,
        .ret 1 (some (.variable ⟨2, ⟨"g", 1⟩⟩))]⟩],
    .classDecl ⟨"C", 1⟩ (some ⟨3, ⟨"B", 1⟩⟩) [⟨⟨"m", 1⟩, [], []⟩],
    .varDecl ⟨"c", 1⟩ (some (.call (.variable ⟨4, ⟨"C", 1⟩⟩) [] 1)),
    .expression (.assign ⟨6, ⟨"A", 1⟩⟩ (.literal .nil)),
    .expression (.assign ⟨8, ⟨"B", 1⟩⟩ (.literal .nil)),
    .expression (.call (.call (.get (.variable ⟨9, ⟨"c", 1⟩⟩) ⟨"f", 1⟩) [] 1) [] 1)]

/-- What has happened once it has run. -/
def past : Past := Past.after ⟨[], true⟩ none 0 [.run 30 text]

/-- Whether a `super` begins that gives a method with one parameter. -/
def findsUnary : Moment → Bool
  | .begins (fuel + 1) (.eval (.super id line name)) s =>
    match Eval.eval (fuel + 1) (.super id line name) s with
    | .ok (.callable callable) _ => callable.arity == 1
    | _ => false
  | _ => false

end Dispatch

/-- The function finds the method with one parameter, that of the class at the top. -/
theorem kept_function_goes_up :
    ∃ fuel id line name s,
      Dispatch.past.moments (.begins (fuel + 1) (.eval (.super id line name)) s) ∧
      ∃ call receiver method methods info superclass found bound s',
        Dispatch.past.Invokes call receiver method ∧
        Dispatch.past.MethodCall s call receiver method methods info superclass ∧
        superclass.chain.findSome? (Class.own? name.text) = some found ∧
        Eval.eval (fuel + 1) (.super id line name) s = .ok (.callable (.bound bound)) s' ∧
        found.BoundTo s'.scopes receiver bound ∧ (Callable.bound bound).arity = 1 := by
  obtain ⟨m, hm, hp⟩ := Course.moment_of_trace (.new ⟨[], true⟩ none 0) 30 Dispatch.text
    Dispatch.program (by cbv) Dispatch.findsUnary (by decide +kernel)
  unfold Dispatch.findsUnary at hp
  split at hp
  · rename_i fuel id line name s
    obtain ⟨hops, call, -, -, ⟨receiver, method, invoked⟩, dispatched⟩ :=
      super_goes_up ⟨[], true⟩ none 0 [.run 30 Dispatch.text] fuel id line name s hm
    obtain ⟨_, methods, info, superclass, -, -, methodCall, finds, fails⟩ :=
      dispatched receiver method invoked
    cases hfound : superclass.chain.findSome? (Class.own? name.text) with
    | none =>
      obtain ⟨_, _, _, error⟩ := fails.2 (List.findSome?_eq_none_iff.1 hfound)
      rw [error] at hp
      cases hp
    | some found =>
      obtain ⟨bound, s', answer, boundTo⟩ := finds found hfound
      rw [answer] at hp
      exact ⟨fuel, id, line, name, s, hm, call, receiver, method, methods, info, superclass, found,
        bound, s', invoked, methodCall, hfound, answer, boundTo, eq_of_beq hp⟩
  · cases hp

end Lox
