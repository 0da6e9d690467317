/-
# Every script keeps to the scoping contract

One lemma for each kind of task, with one case for each construct: where a scope is opened the
static stack grows by the static scope of the construct, and where a name is defined by the name.
`scoping_sound` puts them together.
-/
import Lox.Proofs.Scoping.Contract

namespace Lox

open StaticScope
open Occurrence (declaring ofExpr ofExprs ofOptional ofParams ofStmt ofOptionalStmt ofStmts
  ofFunction ofMethods)

/-! ## 1. Code that can be evaluated

Code can be evaluated on a stack if the current scope realizes the stack, and if all its occurrences
are filed. -/

/-- What is known of two lists is known of the first. -/
theorem Past.Knows.left {past : Past} {os os' : List Occurrence} (h : past.Knows (os ++ os')) :
    past.Knows os :=
  fun o ho => h o (List.mem_append_left _ ho)

theorem Past.Knows.right {past : Past} {os os' : List Occurrence} (h : past.Knows (os ++ os')) :
    past.Knows os' :=
  fun o ho => h o (List.mem_append_right _ ho)

namespace State.Ready

variable {past : Past} {stack : List StaticScope} {os os' : List Occurrence} {s s' : State}

/-- A part of the code can be evaluated where the whole can. -/
theorem part (h : s.Ready past stack os) (known : past.Knows os') : s.Ready past stack os' :=
  ⟨h.sound, h.placed, known⟩

/-- Code can still be evaluated after other code has been that opens all its scopes itself. -/
theorem keep (h : s.Ready past stack os) (leads : s.Leads past none s') (place : s.SamePlace s') :
    s'.Ready past stack os := by
  refine ⟨leads.sound, ?_, h.known⟩
  rw [place.scope]
  exact h.placed.keep leads (by simp)

end State.Ready

/-- A statement that declares nothing leaves the stack as it is. -/
theorem Stmt.after_of_branch {s : Stmt} (h : s.declared? = none) (stack : List StaticScope) :
    s.after stack = stack := by
  rw [Stmt.after, h]

/-- Ends of statements, behind which the static scopes are the given ones. -/
abbrev State.Executes (past : Past) (stack : List StaticScope) (s : State)
    (completion : Completion) (s' : State) : Prop :=
  s.Leads past (some s.scope) s' ∧ completion.Sound past s'.store ∧
    (completion = .normal → Placed past s'.store s'.scope stack)

/-- Answers of expressions. -/
abbrev State.Yields (past : Past) (s : State) (value : Value) (s' : State) : Prop :=
  s.Leads past none s' ∧ value.Sound past s'.store

namespace Task

open Script

variable {past : Past} {fuel : Nat} {stack : List StaticScope} {s : State}

/-! ## 2. Methods and properties

Where a method is bound, the receiver gets a scope. -/

/-- A method gets a scope for its receiver, inside the one that it has kept. -/
theorem fits_bindMethod (sound : s.Sound past) {receiver : InstanceId} {method : Method}
    (bindable : method.Bindable past s.store receiver) :
    (bindMethod receiver method).Fits past fuel
      (fun bound s' => s.Leads past none s' ∧ bound.Sound past s'.store ∧ s.SamePlace s' ∧
        bound.method.arity = method.arity) s := by
  obtain ⟨cls, hcls, own⟩ := bindable
  cases method with
  | builtin method => exact fits_pure ⟨.refl sound, ⟨cls, hcls, own⟩, .refl s, rfl⟩
  | declared closure =>
    obtain ⟨⟨outer, realizes, grammatical, known⟩, declared⟩ := own
    refine fits_bind (fits_opening sound fun s₁ opened leads₁ store₁ place₁ => ?_)
    have hcls₁ : s₁.heap.class? receiver = some cls := leads₁.grows.class _ _ hcls
    have this : Eval.Does past (some s.scopes.all.size)
        (Eval.defineIn s.scopes.all.size "this" (.inst receiver)) _ s₁ :=
      .bindIn leads₁.sound _ trivial (fun _ => ⟨receiver, cls, rfl, hcls₁, declared⟩)
        fun h => absurd h (by decide)
    refine fits_bind (fits_doing _ this (.defineIn _ _ _) fun _ s₂ leads₂ store₂ place₂ => ?_)
    have stamp : Eval.Does past none Eval.freshStamp _ s₂ := .freshStamp leads₂.sound
    refine fits_bind (fits_doing _ stamp .freshStamp fun _ s₃ leads₃ _ place₃ => fits_pure ?_)
    refine ⟨(leads₁.of_new leads₂ (Nat.le_refl _)).trans leads₃, ?_,
      place₁.trans (place₂.trans place₃), rfl⟩
    have single := realizes.of_single opened "this" (.inst receiver)
    have scopes₁ : s₁.scopes = _ := congrArg Store.scopes store₁
    have heap₁ : s₁.heap = _ := congrArg Store.heap store₁
    rw [scopes₁, heap₁] at store₂
    exact ⟨_, (store₂ ▸ single).mono leads₃.grows, grammatical, known⟩

/-- A bound method as a value. -/
theorem fits_bound (sound : s.Sound past) {receiver : InstanceId} {method : Method}
    (bindable : method.Bindable past s.store receiver) :
    (do return .callable (.bound (← bindMethod receiver method)) : Script Value).Fits past fuel
      (fun value s' => s.Yields past value s' ∧ s.SamePlace s') s :=
  fits_bind (Meets.imp (fits_bindMethod sound bindable) fun _ _ h =>
    fits_pure ⟨⟨h.1, h.2.1⟩, h.2.2.1⟩)

/-- A property is a field, or a method of the class of the instance. -/
theorem fits_getProperty (sound : s.Sound past) (id : InstanceId) (name : String) (line : Nat) :
    (getProperty id name line).Fits past fuel
      (fun value s' => s.Yields past value s' ∧ s.SamePlace s') s := by
  refine fits_bind (fits_seeing ?_)
  split
  · rename_i value found
    exact fits_pure ⟨⟨.refl sound, sound.store.fields id name value found⟩, .refl s⟩
  · split
    · rename_i method found
      obtain ⟨cls, hcls, hmethod⟩ := Option.bind_eq_some_iff.1 found
      exact fits_bound sound ⟨cls, hcls, (sound.store.classes id cls hcls).findMethod? hmethod⟩
    · exact fits_fail sound

/-- `super` finds the class that the scope of `super` holds, and the instance that the scope of
`this` holds. -/
theorem fits_superMethod (sound : s.Sound past) (node : Id) (line : Nat) (method : Name) :
    (superMethod node line method).Fits past fuel
      (fun value s' => s.Yields past value s' ∧ s.SamePlace s') s := by
  refine fits_bind (fits_seeing ?_)
  dsimp only [id]
  split
  · split
    · rename_i inner _ superclass receiver hsuper hthis
      simp only [Scopes.getAt?, Option.bind_eq_some_iff] at hsuper hthis
      obtain ⟨superScope, -, hsuper⟩ := hsuper
      obtain ⟨thisScope, -, hthis⟩ := hthis
      obtain ⟨id, cls, hid, hcls, declared⟩ := sound.store.this thisScope _ hthis
      cases hid
      split
      · rename_i found hfound
        have superSound : superclass.Sound past s.store :=
          sound.store.values superScope "super" _ hsuper
        refine fits_bound sound ⟨cls, hcls, ?_⟩
        have hmethod := superSound.findMethod? hfound
        cases found with
        | builtin found =>
          intro kind hkind
          rw [hkind] at declared
          cases declared
        | declared closure => exact ⟨hmethod.1, declared⟩
      · exact fits_fail sound
    · exact fits_fail sound
    · exact fits_fail sound
    · exact fits_fail sound
  · exact fits_fail sound

/-! ## 3. Expressions

Expressions open no scopes but through what they call. -/

/-- One case for each kind of expression, with the stack as it is. -/
theorem fits_evalScript {e : Expr} (ready : s.Ready past stack (ofExpr stack e)) :
    (evalScript e).Fits past fuel (fun value s' => s.Yields past value s') s := by
  cases e with
  | literal value =>
    refine fits_pure ⟨.refl ready.sound, ?_⟩
    cases value <;> trivial
  | grouping inner => exact fits_perform stack ready fun _ _ h _ => h
  | unary op line operand =>
    refine fits_bind (fits_perform stack ready fun v s₁ h _ => ?_)
    exact fits_doing none (.unary h.1.sound _ _ _) (Eval.Keeps.plain.unary _ _ _)
      fun _ _ leads sound _ => ⟨h.1.trans leads, sound⟩
  | binary op line left right =>
    refine fits_bind (fits_perform stack (ready.part ready.known.left) fun l s₁ h₁ place₁ => ?_)
    have ready₁ := (ready.part ready.known.right).keep h₁.1 place₁
    refine fits_bind (fits_perform stack ready₁ fun r s₂ h₂ _ => ?_)
    exact fits_doing none (.binary h₂.1.sound _ _ _ _) (Eval.Keeps.plain.binary _ _ _ _)
      fun _ _ leads sound _ => ⟨h₁.1.trans (h₂.1.trans leads), sound⟩
  | logical op line left right =>
    refine fits_bind (fits_perform stack (ready.part ready.known.left) fun l s₁ h₁ place₁ => ?_)
    split
    · exact fits_pure h₁
    · have ready₁ := (ready.part ready.known.right).keep h₁.1 place₁
      exact fits_perform stack ready₁ fun _ _ h₂ _ => ⟨h₁.1.trans h₂.1, h₂.2⟩
  | «variable» v =>
    exact fits_doing none (.readVariable ready.sound _ _ _) (Eval.Keeps.plain.readVariable _ _ _)
      fun _ _ leads sound _ => ⟨leads, sound⟩
  | assign target value =>
    refine fits_bind (fits_perform stack (ready.part ready.known.left) fun v s₁ h₁ place₁ => ?_)
    have written := ready.known.right _ List.mem_cons_self
    have ordinary : Ordinary target.name.text := (ready.sound.filed _ written).2.1
    refine fits_bind (fits_doing none (.writeVariable h₁.1.sound target ordinary h₁.2)
      (.writeVariable _ _) fun _ s₂ leads _ _ => ?_)
    exact fits_pure ⟨h₁.1.trans leads, h₁.2.mono leads.grows⟩
  | call callee arguments line =>
    refine fits_bind (fits_perform stack (ready.part ready.known.left) fun f s₁ h₁ place₁ => ?_)
    have ready₁ := (ready.part ready.known.right).keep h₁.1 place₁
    refine fits_bind (fits_perform stack ready₁ fun values s₂ h₂ _ => ?_)
    exact fits_perform stack ⟨h₂.1.sound, h₁.2.mono h₂.1.grows, h₂.2⟩
      fun _ _ h₃ _ => ⟨h₁.1.trans (h₂.1.trans h₃.1), h₃.2.1⟩
  | get object property =>
    refine fits_bind (fits_perform stack ready fun v s₁ h₁ _ => ?_)
    split
    · exact Meets.imp (fits_getProperty h₁.1.sound _ _ _)
        fun _ _ h₂ => ⟨h₁.1.trans h₂.1.1, h₂.1.2⟩
    · exact fits_fail h₁.1.sound
  | set object property value =>
    refine fits_bind (fits_perform stack (ready.part ready.known.right) fun v s₁ h₁ place₁ => ?_)
    split
    · have ready₁ := (ready.part ready.known.left).keep h₁.1 place₁
      refine fits_bind (fits_perform stack ready₁ fun w s₂ h₂ _ => ?_)
      refine fits_bind (fits_doing none (.setField h₂.1.sound _ _ h₂.2)
        (Eval.Keeps.heapLaws.modifyHeap _) fun _ s₃ leads _ _ => ?_)
      exact fits_pure ⟨h₁.1.trans (h₂.1.trans leads), h₂.2.mono leads.grows⟩
    · exact fits_fail h₁.1.sound
  | this id line =>
    exact fits_doing none (.readVariable ready.sound _ _ _) (Eval.Keeps.plain.readVariable _ _ _)
      fun _ _ leads sound _ => ⟨leads, sound⟩
  | super id line method =>
    exact Meets.imp (fits_superMethod ready.sound _ _ _) fun _ _ h => h.1
  | list line elements =>
    refine fits_bind (fits_perform stack ready fun values s₁ h₁ _ => ?_)
    exact fits_doing none (.newList h₁.1.sound h₁.2) (Eval.Keeps.heapLaws.newList _)
      fun _ _ leads sound _ => ⟨h₁.1.trans leads, sound⟩

/-! ## 4. Calls

What is called brings its own stack along. -/

/-- What is called with as many arguments as it takes. -/
theorem fits_callScript {callee : Value} {arguments : List Value} (sound : s.Sound past)
    (hcallee : callee.Sound past s.store) (hargs : Value.AllSound past s.store arguments)
    (line : Nat) :
    (callScript callee arguments line).Fits past fuel
      (fun value s' =>
        s.Leads past none s' ∧ value.Sound past s'.store ∧ s.depth < maxDepth) s := by
  unfold callScript
  split
  · split
    · rename_i callable arity
      refine fits_call sound ⟨⟨sound.store, sound.filed⟩, hcallee, hargs, arity⟩
        fun v s' room h => ?_
      exact ⟨h.1.of_depth _, h.2, room⟩
    · exact fits_fail sound
  · exact fits_fail sound

/-- The parameters of a function are what its new scope binds. -/
theorem does_defineAll {scope : ScopeId} {params : List Name} {arguments : List Value}
    (ordinary : ∀ name ∈ params, Ordinary name.text) (arity : params.length = arguments.length)
    {stack : List StaticScope} (sound : s.Sound past) (placed : Placed past s.store scope stack)
    (hargs : Value.AllSound past s.store arguments) :
    Eval.Does past (some scope) (Eval.defineAll scope params arguments)
      (fun _ s' => Placed past s'.store scope (bindParams params stack)) s := by
  induction params generalizing arguments stack s with
  | nil =>
    cases arguments with
    | nil => exact .pure sound placed
    | cons value values => cases arity
  | cons name rest ih =>
    cases arguments with
    | nil => cases arity
    | cons value values =>
      have defined : Eval.Does past (some scope) (Eval.defineIn scope name.text value) _ s :=
        .defineIn sound scope (ordinary name List.mem_cons_self) (hargs value List.mem_cons_self)
      refine defined.bind fun _ s₁ leads store₁ => ?_
      have placed₁ : Placed past s₁.store scope (bindName name.text true stack) :=
        store₁ ▸ placed.define name.text value
      exact ih (fun other h => ordinary other (List.mem_cons_of_mem _ h)) (Nat.succ.inj arity)
        leads.sound placed₁
        fun other h => (hargs other (List.mem_cons_of_mem _ h)).mono leads.grows

/-- The body of a closure runs in a scope for its parameters, inside the one that it has kept. -/
theorem fits_applyClosureScript {closure : Closure} {arguments : List Value} (sound : s.Sound past)
    (hclosure : closure.Sound past s.store) (hargs : Value.AllSound past s.store arguments)
    (arity : closure.arity = arguments.length) :
    (applyClosureScript closure arguments).Fits past fuel (fun value s' => s.Yields past value s')
      s := by
  obtain ⟨stamp, ⟨name, params, body⟩, scope, isInitializer⟩ := closure
  obtain ⟨outer, realizes, grammatical, known⟩ := hclosure
  refine fits_bind (fits_opening sound fun s₁ opened leads₁ store₁ place₁ => ?_)
  have placed :
    Placed past s₁.store s.scopes.all.size (fresh (.call ⟨name, params, body⟩) :: outer) :=
    store₁ ▸ Placed.opened (σ := s.store) realizes opened
  refine fits_bind (fits_doing _ (does_defineAll grammatical.1 arity leads₁.sound placed
    fun value h => (hargs value h).mono leads₁.grows) (Eval.Keeps.laws.defineAll _ _ _)
    fun _ s₂ leads₂ placed₂ place₂ => ?_)
  have leads₁₂ : s.Leads past none s₂ := leads₁.of_new leads₂ (Nat.le_refl _)
  refine fits_bind
    (fits_performIn _ ⟨⟨⟨leads₂.sound.store, leads₂.sound.filed⟩, placed₂, known.right⟩,
    grammatical.2⟩ fun completion s₃ h _ => ?_)
  have leads₃ := h.1.of_scope s₂.scope
  refine fits_doing none (.callResult leads₃.sound _ ?_) (Eval.Keeps.plain.callResult _ _)
    fun value s₄ leads₄ hvalue _ => ⟨(leads₁₂.of_new leads₃ (Nat.le_refl _)).trans leads₄, hvalue⟩
  cases completion with
  | normal => trivial
  | returned value => exact h.2

/-- A class makes an instance, and what is built in needs no stack. -/
theorem fits_applyScript {callable : Callable} {arguments : List Value} (sound : s.Sound past)
    (hcallable : callable.Sound past s.store) (hargs : Value.AllSound past s.store arguments)
    (arity : callable.arity = arguments.length) (line : Nat) :
    (applyScript callable arguments line).Fits past fuel (fun value s' => s.Yields past value s')
      s := by
  cases callable with
  | builtin function =>
    exact fits_doing none (.callFunction sound _ _ _) (Eval.Keeps.laws.callFunction _ _ _)
      fun _ _ leads hvalue _ => ⟨leads, hvalue⟩
  | closure closure => exact fits_perform [] ⟨sound, hcallable, hargs, arity⟩ fun _ _ h _ => h
  | bound method => exact fits_perform [] ⟨sound, hcallable, hargs, arity⟩ fun _ _ h _ => h
  | «class» cls =>
    refine fits_bind (fits_doing none (.newInstance sound cls hcallable fun _ _ _ h => by cases h)
      (Eval.Keeps.heapLaws.newInstance _ _) fun id s₁ leads₁ hid _ => ?_)
    split
    · rename_i initializer found
      have hcls : cls.Sound past s₁.store := Class.Sound.mono leads₁.grows hcallable
      refine fits_bind (Meets.imp (fits_bindMethod leads₁.sound ⟨cls, hid, hcls.findMethod? found⟩)
        fun bound s₂ h₂ => ?_)
      obtain ⟨leads₂, hbound, -, sameArity⟩ := h₂
      have leads₁₂ := leads₁.trans leads₂
      have initArity : bound.method.arity = arguments.length := by
        rw [sameArity, ← arity]
        simp only [Callable.arity, Class.arity, found, Option.map_some, Option.getD_some]
      exact fits_bind (fits_perform [] ⟨leads₂.sound, hbound, fun value h =>
        (hargs value h).mono leads₁₂.grows, initArity⟩ fun _ _ h₃ _ =>
          fits_pure ⟨leads₁₂.trans h₃.1, trivial⟩)
    · exact fits_pure ⟨leads₁, trivial⟩

/-! ## 5. Statements

A statement may define a name in the current scope, and the stack gets the name too. -/

/-- Where the methods of a class find `super`. -/
theorem fits_methodScope (sound : s.Sound past) (placed : Placed past s.store s.scope stack)
    {superclass : Option Class} (hsuper : ∀ cls ∈ superclass, cls.Sound past s.store)
    (parent : Option Variable) (same : parent.isSome = superclass.isSome) (methods : List FunDecl) :
    (methodScope methods superclass).Fits past fuel
      (fun scope s' => s.Leads past none s' ∧ s.SamePlace s' ∧
        Realizes past s'.store scope (Occurrence.methodScopes stack parent methods)) s := by
  cases superclass with
  | none =>
    cases parent with
    | none => exact fits_seeing ⟨.refl sound, .refl s, placed.realizes⟩
    | some parent => cases same
  | some superclass =>
    cases parent with
    | none => cases same
    | some parent =>
      refine fits_bind (fits_openScope sound fun s₁ opened leads₁ store₁ place₁ => ?_)
      have super : Eval.Does past (some s.scopes.all.size)
          (Eval.defineIn s.scopes.all.size "super" (.callable (.class superclass))) _ s₁ :=
        .bindIn leads₁.sound _
          (((hsuper superclass rfl).mono leads₁.grows).mono (s₁.store.grows_define _ _ _))
          (fun h => absurd h (by decide)) fun _ => ⟨superclass, rfl⟩
      refine fits_bind (fits_doing _ super (.defineIn _ _ _) fun _ s₂ leads₂ store₂ place₂ => ?_)
      refine fits_pure ⟨leads₁.of_new leads₂ (Nat.le_refl _), place₁.trans place₂, ?_⟩
      have single := placed.realizes.of_single opened "super" (.callable (.class superclass))
      have scopes₁ : s₁.scopes = _ := congrArg Store.scopes store₁
      have heap₁ : s₁.heap = _ := congrArg Store.heap store₁
      rw [scopes₁, heap₁] at store₂
      exact store₂ ▸ single

/-- A method of a class keeps to the grammar. -/
theorem grammatical_of_mem {methods : List FunDecl} (h : FunDecl.GrammaticalAll methods)
    {method : FunDecl} (mem : method ∈ methods) : method.Grammatical := by
  induction methods with
  | nil => cases mem
  | cons first rest ih =>
    rcases List.mem_cons.1 mem with rfl | mem
    · exact h.1
    · exact ih h.2 mem

theorem knows_of_mem {scopes : List StaticScope} {methods : List FunDecl}
    (h : past.Knows (ofMethods scopes methods)) {method : FunDecl} (mem : method ∈ methods) :
    past.Knows (ofFunction (StaticScope.receiver method :: scopes) method) := by
  induction methods with
  | nil => cases mem
  | cons first rest ih =>
    rcases List.mem_cons.1 mem with rfl | mem
    · exact h.left
    · exact ih h.right mem

/-- The methods of a class keep the scope of its superclass, if it has one. -/
theorem fits_declareClass (stack : List StaticScope) {name : Name} {superclass : Option Class}
    {methods : List FunDecl}
    (sound : s.Sound past) (placed : Placed past s.store s.scope stack)
    (hsuper : ∀ cls ∈ superclass, cls.Sound past s.store) (parent : Option Variable)
    (same : parent.isSome = superclass.isSome) (ordinary : Ordinary name.text)
    (grammatical : FunDecl.GrammaticalAll methods)
    (known : past.Knows (ofMethods
      (Occurrence.methodScopes (bindName name.text true stack) parent methods) methods)) :
    (declareClass name superclass methods).Fits past fuel
      (fun _ s' => s.Leads past (some s.scope) s' ∧ s.SamePlace s' ∧
        Placed past s'.store s'.scope (bindName name.text true stack)) s := by
  refine fits_bind
    (fits_doing _ (Eval.Does.define sound ordinary trivial) (Eval.Keeps.laws.define _ _)
    fun _ s₁ leads₁ store₁ place₁ => ?_)
  have placed₁ : Placed past s₁.store s₁.scope (bindName name.text true stack) := by
    rw [store₁, place₁.1]
    exact placed.define name.text .nil
  refine fits_bind (Meets.imp (fits_methodScope leads₁.sound placed₁
    (fun cls h => (hsuper cls h).mono leads₁.grows) parent same methods) fun scope s₂ h₂ => ?_)
  obtain ⟨leads₂, place₂, realizes⟩ := h₂
  refine fits_bind (fits_doing none (.freshStamp leads₂.sound) .freshStamp
    fun stamp s₃ leads₃ _ place₃ => ?_)
  refine fits_bind (fits_doing none (.newMethods leads₃.sound scope methods .empty)
    (Eval.Keeps.laws.newMethods _ _ _) fun closures s₄ leads₄ h₄ place₄ => ?_)
  have leads₂₄ := leads₂.trans (leads₃.trans leads₄)
  have place₂₄ := place₂.trans (place₃.trans place₄)
  have home : s₄.scope = s.scope := (place₁.trans place₂₄).1
  have placed₄ : Placed past s₄.store s₄.scope (bindName name.text true stack) := by
    rw [place₂₄.1]
    exact placed₁.keep leads₂₄ (by simp)
  have realizes₄ := realizes.mono (leads₃.trans leads₄).grows
  have hmethods : ∀ other closure, closures.get? other = some closure →
      closure.MethodSound past s₄.store := by
    intro other closure found
    rcases h₄.2 other closure found with empty | ⟨hscope, mem⟩
    · cases empty
    · exact ⟨_, hscope ▸ realizes₄, grammatical_of_mem grammatical mem, knows_of_mem known mem⟩
  refine fits_doing _ (Eval.Does.define leads₄.sound ordinary ?_) (Eval.Keeps.laws.define _ _)
    fun _ s₅ leads₅ store₅ place₅ => ⟨?_, place₁.trans (place₂₄.trans place₅), ?_⟩
  · refine Class.Sound.mono (s₄.store.grows_define _ _ _) ?_
    cases superclass with
    | none => exact hmethods
    | some superclass =>
      exact ⟨hmethods, (hsuper superclass rfl).mono (leads₁.grows.trans leads₂₄.grows)⟩
  · rw [home] at leads₅
    exact leads₁.trans (leads₂₄.of_none.trans leads₅)
  · rw [store₅, place₅.1, ← bindName_bindName name.text true]
    exact placed₄.define name.text _

/-- What follows on expressions that have been evaluated. -/
theorem executes_of_yields {os : List Occurrence} (ready : s.Ready past stack os) {s₁ : State}
    (leads : s.Leads past none s₁) (place : s.SamePlace s₁) :
    s.Executes past stack .normal s₁ :=
  ⟨leads.of_none, trivial, fun _ => (ready.keep leads place).placed⟩

/-- What follows on a statement is executed in the same scope. -/
theorem executes_trans {s₁ s₂ : State} {completion : Completion}
    (leads : s.Leads past (some s.scope) s₁) (place : s.SamePlace s₁)
    (h : s₁.Executes past stack completion s₂) : s.Executes past stack completion s₂ := by
  rw [State.Executes, place.scope] at h
  exact ⟨leads.trans h.1, h.2⟩

/-- While the initializer is evaluated, the name is declared and not yet bound. -/
theorem fits_varDecl {name : Name} {initializer : Option Expr}
    (ready : s.Ready past stack (ofStmt stack (.varDecl name initializer))) :
    (execScript (.varDecl name initializer)).Fits past fuel
      (s.Executes past (bindName name.text true stack)) s := by
  obtain ⟨ordinary, new⟩ := (ready.sound.filed _ (ready.known _ List.mem_cons_self)).2
  have inner : s.Ready past (bindName name.text false stack)
      (ofOptional (bindName name.text false stack) initializer) :=
    ⟨ready.sound, ready.placed.declare new, fun o ho => ready.known o (List.mem_cons_of_mem _ ho)⟩
  refine fits_bind (fits_perform _ inner fun v s₁ h₁ place₁ => ?_)
  refine fits_bind (fits_doing _ (Eval.Does.define h₁.1.sound ordinary
    (h₁.2.mono (s₁.store.grows_define _ _ _))) (Eval.Keeps.laws.define _ _)
    fun _ s₂ leads₂ store₂ place₂ => fits_pure ?_)
  refine executes_trans h₁.1.of_none place₁ ⟨leads₂, trivial, fun _ => ?_⟩
  rw [store₂, place₂.1]
  exact ((ready.keep h₁.1 place₁).placed).define name.text v

/-- A block has a scope of its own, and behind it the old one is as it was. -/
theorem fits_block {body : List Stmt} (ready : s.Ready past stack (ofStmt stack (.block body)))
    (grammatical : (Stmt.block body).Grammatical) :
    (execScript (.block body)).Fits past fuel (s.Executes past stack) s := by
  refine fits_bind (fits_openScope ready.sound fun s₁ opened leads₁ store₁ place₁ => ?_)
  have placed : Placed past s₁.store s.scopes.all.size (fresh (.block body) :: stack) :=
    store₁ ▸ Placed.opened (σ := s.store) ready.placed.realizes opened
  refine fits_performIn _ ⟨⟨⟨leads₁.sound.store, leads₁.sound.filed⟩, placed, ready.known⟩,
    grammatical⟩ fun completion s₂ h₂ _ => ?_
  have leads : s.Leads past none { s₂ with scope := s₁.scope } :=
    leads₁.of_new (h₂.1.of_scope s₁.scope) (Nat.le_refl _)
  have placed' := ready.placed.keep leads (by simp)
  rw [← place₁.1] at placed'
  exact ⟨leads.of_none, h₂.2, fun _ => placed'⟩

/-- A branch declares nothing. -/
theorem fits_ifElse {condition : Expr} {thenBranch : Stmt} {elseBranch : Option Stmt}
    (ready : s.Ready past stack (ofStmt stack (.ifElse condition thenBranch elseBranch)))
    (grammatical : (Stmt.ifElse condition thenBranch elseBranch).Grammatical) :
    (execScript (.ifElse condition thenBranch elseBranch)).Fits past fuel
      (s.Executes past stack) s := by
  have known := ready.known
  refine fits_bind (fits_perform stack (ready.part known.left.left) fun v s₁ h₁ place₁ => ?_)
  split
  · have ready₁ := (ready.part known.left.right).keep h₁.1 place₁
    refine fits_perform stack ⟨ready₁, grammatical.2.1.2⟩ fun completion s₂ h₂ _ => ?_
    have executes := executes_trans h₁.1.of_none place₁ h₂
    rwa [Stmt.after_of_branch grammatical.2.1.1] at executes
  · split
    · rename_i elseBranch
      have ready₁ := (ready.part known.right).keep h₁.1 place₁
      refine fits_perform stack ⟨ready₁, grammatical.2.2.2⟩ fun completion s₂ h₂ _ => ?_
      have executes := executes_trans h₁.1.of_none place₁ h₂
      rwa [Stmt.after_of_branch grammatical.2.2.1] at executes
    · exact fits_pure (executes_of_yields ready h₁.1 place₁)

/-- The iterator is asked for once, in front of the turns. -/
theorem fits_forEach {line : Nat} {name : Name} {iterable : Expr} {body : Stmt}
    (ready : s.Ready past stack (ofStmt stack (.forEach line name iterable body)))
    (grammatical : (Stmt.forEach line name iterable body).Grammatical) :
    (execScript (.forEach line name iterable body)).Fits past fuel (s.Executes past stack) s := by
  refine fits_bind (fits_perform stack (ready.part ready.known.left) fun v s₁ h₁ place₁ => ?_)
  split
  · refine fits_bind (fits_perform stack ⟨h₁.1.sound, fun _ h => by cases h⟩
      fun iterator s₂ h₂ place₂ => ?_)
    refine fits_bind
      (fits_doing none (.cursorFor h₂.1.sound iterator) (Eval.Keeps.plain.cursorFor _)
      fun cursor s₃ leads₃ h₃ place₃ => ?_)
    have leads := h₁.1.trans (h₂.1.trans leads₃)
    have place := place₁.trans (place₂.trans place₃)
    have ready₃ := (ready.part ready.known.right).keep leads place
    have room : s₃.depth < maxDepth := by
      rw [place₃.2, place₂.2]
      exact h₂.2.2
    have hcursor : cursor.Sound past s₃.store := by
      obtain ⟨rfl, rfl | ⟨id, kind, rfl, hcls, stepped⟩⟩ := h₃
      · exact h₂.2.1
      · exact ⟨kind, hcls, stepped⟩
    exact fits_perform stack ⟨ready₃, grammatical.2.2, hcursor, room⟩
      fun _ _ h₄ _ => executes_trans leads.of_none place h₄
  · exact fits_fail h₁.1.sound

/-- A function is made in the scope that its name is then defined in. -/
theorem fits_funDecl {declaration : FunDecl}
    (ready : s.Ready past stack (ofStmt stack (.funDecl declaration)))
    (grammatical : (Stmt.funDecl declaration).Grammatical) :
    (execScript (.funDecl declaration)).Fits past fuel
      (s.Executes past (bindName declaration.name.text true stack)) s := by
  have made : Eval.Does past none
      (do Eval.newClosure declaration (← get).scope false : Eval Closure)
      (fun closure s' => s'.store = s.store ∧ closure.scope = s.scope ∧
        closure.declaration = declaration) s :=
    ⟨.of_same ready.sound rfl rfl rfl, rfl, rfl, rfl⟩
  refine fits_bind (fits_doing _ made (.bind .get fun _ => Eval.Keeps.laws.newClosure _ _ _)
    fun closure s₁ leads₁ h₁ place₁ => ?_)
  obtain ⟨-, hscope, hdeclaration⟩ := h₁
  have placed₁ := (ready.keep leads₁ place₁).placed.define declaration.name.text
    (.callable (.closure closure))
  -- the name is bound before anything can be found in the closure's scope
  have hclosure : closure.Sound past ⟨s₁.scopes.define s₁.scope declaration.name.text
      (.callable (.closure closure)), s₁.heap⟩ := by
    refine ⟨bindName declaration.name.text true stack, ?_, hdeclaration ▸ grammatical.2,
      fun o ho => ready.known o (List.mem_cons_of_mem _ (hdeclaration ▸ ho))⟩
    rw [hscope, ← place₁.1]
    exact placed₁.realizes
  refine fits_bind
    (fits_doing _ (Eval.Does.define leads₁.sound grammatical.1 hclosure)
      (Eval.Keeps.laws.define _ _)
    fun _ s₂ leads₂ store₂ place₂ => fits_pure ?_)
  refine executes_trans leads₁.of_none place₁ ⟨leads₂, trivial, fun _ => ?_⟩
  rw [store₂, place₂.1]
  exact placed₁

/-- The superclass is evaluated while the name is declared and not yet bound. -/
theorem fits_classDecl {name : Name} {superclass : Option Variable} {methods : List FunDecl}
    (ready : s.Ready past stack (ofStmt stack (.classDecl name superclass methods)))
    (grammatical : (Stmt.classDecl name superclass methods).Grammatical) :
    (execScript (.classDecl name superclass methods)).Fits past fuel
      (s.Executes past (bindName name.text true stack)) s := by
  cases superclass with
  | none =>
    refine fits_bind (fits_pure (fits_bind (Meets.imp (fits_declareClass stack ready.sound
      ready.placed (fun _ h => by cases h) none rfl grammatical.1 grammatical.2
      fun o ho => ready.known o (List.mem_cons_of_mem _ ho)) fun _ s₁ h₁ => fits_pure ?_)))
    exact ⟨h₁.1, trivial, fun _ => h₁.2.2⟩
  | some parent =>
    obtain ⟨ordinary, new⟩ := (ready.sound.filed _ (ready.known _ List.mem_cons_self)).2
    have inner : s.Ready past (bindName name.text false stack)
        (ofExpr (bindName name.text false stack) (.variable parent)) := by
      refine ⟨ready.sound, ready.placed.declare new, fun o ho => ready.known o ?_⟩
      exact List.mem_cons_of_mem _ (List.mem_append_left _ ho)
    refine fits_bind (fits_perform _ inner fun v s₁ h₁ place₁ => ?_)
    refine fits_bind (fits_doing none (.superclassOf h₁.1.sound _ h₁.2)
      (Eval.Keeps.plain.superclassOf _ _) fun cls s₂ leads₂ h₂ place₂ => ?_)
    obtain ⟨rfl, hcls⟩ := h₂
    have placed := (ready.keep h₁.1 place₁).placed
    have hsuper : ∀ found ∈ some cls, found.Sound past s₂.store := by
      intro found hfound
      cases hfound
      exact hcls
    refine fits_bind (fits_pure (fits_bind (Meets.imp (fits_declareClass stack h₁.1.sound placed
      hsuper (some parent) rfl ordinary grammatical.2
      fun o ho => ready.known o (List.mem_cons_of_mem _ (List.mem_cons_of_mem _ ho)))
      fun _ s₃ h₃ => fits_pure ?_)))
    exact executes_trans h₁.1.of_none place₁ ⟨h₃.1, trivial, fun _ => h₃.2.2⟩

/-- One case for each kind of statement.  Those that open scopes have lemmas of their own. -/
theorem fits_execScript {st : Stmt} (ready : s.Ready past stack (ofStmt stack st))
    (grammatical : st.Grammatical) :
    (execScript st).Fits past fuel
      (fun completion s' => s.Executes past (st.after stack) completion s')
      s := by
  cases st with
  | print line value =>
    refine fits_bind (fits_perform stack ready fun v s₁ h₁ place₁ => ?_)
    refine fits_bind (fits_doing none (.printValue h₁.1.sound _ _) (.printValue _ _)
      fun _ s₂ leads₂ _ place₂ => fits_pure ?_)
    exact executes_of_yields ready (h₁.1.trans leads₂) (place₁.trans place₂)
  | expression value =>
    exact fits_bind (fits_perform stack ready fun v s₁ h₁ place₁ =>
      fits_pure (executes_of_yields ready h₁.1 place₁))
  | varDecl name initializer => exact fits_varDecl ready
  | block body => exact fits_block ready grammatical
  | ifElse condition thenBranch elseBranch => exact fits_ifElse ready grammatical
  | whileLoop condition body => exact fits_perform stack ⟨ready, grammatical.2⟩ fun _ _ h _ => h
  | forEach line name iterable body => exact fits_forEach ready grammatical
  | funDecl declaration => exact fits_funDecl ready grammatical
  | ret line value =>
    refine fits_bind (fits_perform stack ready fun v s₁ h₁ place₁ => fits_pure ?_)
    exact ⟨h₁.1.of_none, h₁.2, fun h => by cases h⟩
  | classDecl name superclass methods => exact fits_classDecl ready grammatical

/-! ## 6. Loops and bodies

What is executed again and again starts from the same stack each time. -/

/-- The variable of a loop has a scope of its own in each turn. -/
theorem fits_forEachScript {cursor : Cursor} {line : Nat} {name : Name} {body : Stmt}
    (ready : s.Ready past stack (declaring (fresh (.iteration name body) :: stack) name ::
      ofStmt (bindName name.text true (fresh (.iteration name body) :: stack)) body))
    (branch : body.Branch) (hcursor : cursor.Sound past s.store) (room : s.depth < maxDepth) :
    (forEachScript cursor line name body).Fits past fuel
      (fun completion s' => s.Executes past stack completion s') s := by
  have ordinary : Ordinary name.text :=
    (ready.sound.filed _ (ready.known _ List.mem_cons_self)).2.1
  refine fits_bind (fits_perform stack ⟨ready.sound, hcursor⟩ fun more s₁ leads₁ place₁ => ?_)
  split
  · refine fits_bind (fits_openScope leads₁.sound fun s₂ opened leads₂ store₂ place₂ => ?_)
    have placed₁ := (ready.keep leads₁ place₁).placed
    have placed₂ :
      Placed past s₂.store s₁.scopes.all.size (fresh (.iteration name body) :: stack) :=
      store₂ ▸ Placed.opened (σ := s₁.store) placed₁.realizes opened
    have hcursor₂ := (hcursor.mono leads₁.grows).mono leads₂.grows
    refine fits_bind (fits_perform stack ⟨leads₂.sound, hcursor₂⟩ fun value s₃ h₃ place₃ => ?_)
    have defined : Eval.Does past (some s₁.scopes.all.size)
        (Eval.defineIn s₁.scopes.all.size name.text value) _ s₃ :=
      .defineIn h₃.1.sound _ ordinary h₃.2
    refine fits_bind (fits_doing _ defined (.defineIn _ _ _) fun _ s₄ leads₄ store₄ place₄ => ?_)
    have placed₄ : Placed past s₄.store s₁.scopes.all.size
        (bindName name.text true (fresh (.iteration name body) :: stack)) :=
      store₄ ▸ (placed₂.keep h₃.1 (by simp)).define name.text value
    have known : past.Knows
        (ofStmt (bindName name.text true (fresh (.iteration name body) :: stack)) body) :=
      fun o ho => ready.known o (List.mem_cons_of_mem _ ho)
    refine fits_bind (fits_performIn _ ⟨⟨⟨leads₄.sound.store, leads₄.sound.filed⟩, placed₄, known⟩,
      branch.2⟩ fun completion s₅ h₅ place₅ => ?_)
    -- up to here only the scope of this turn, which is new, has got names
    have leads₁₅ : s₁.Leads past none { s₅ with scope := s₄.scope } :=
      (leads₂.trans h₃.1).of_new (leads₄.trans (h₅.1.of_scope s₄.scope)) (Nat.le_refl _)
    have leads₅ := leads₁.trans leads₁₅
    have place₅ := place₁.trans (place₂.trans (place₃.trans (place₄.trans place₅)))
    cases completion with
    | returned value => exact fits_pure ⟨leads₅.of_none, h₅.2.1, fun h => by cases h⟩
    | normal =>
      have hcursor₅ := hcursor.mono leads₅.grows
      refine fits_bind (fits_perform stack ⟨leads₅.sound, hcursor₅⟩ fun _ s₆ leads₆ place₆ => ?_)
      have leads := leads₅.trans leads₆
      have place := place₅.trans place₆
      refine fits_perform stack ⟨ready.keep leads place, branch, hcursor₅.mono leads₆.grows, ?_⟩
        fun _ _ h₇ _ => executes_trans leads.of_none place h₇
      rw [place.depth]
      exact room
  · exact fits_pure (executes_of_yields ready leads₁ place₁)

/-- Expressions are evaluated one after the other. -/
theorem fits_evalAll {es : List Expr} (expects : (Task.evalAll es).Expects past stack s) :
    (Task.evalAll es).script.Fits past fuel ((Task.evalAll es).Gives past stack s) s := by
  cases es with
  | nil => exact fits_pure ⟨.refl expects.sound, fun _ h => by cases h⟩
  | cons e es =>
    refine fits_bind (fits_perform stack (expects.part expects.known.left)
      fun value s₁ h₁ place₁ => ?_)
    have ready₁ := (expects.part expects.known.right).keep h₁.1 place₁
    refine fits_bind (fits_perform stack ready₁ fun values s₂ h₂ _ => fits_pure ?_)
    refine ⟨h₁.1.trans h₂.1, fun found hfound => ?_⟩
    rcases List.mem_cons.1 hfound with rfl | mem
    · exact h₁.2.mono h₂.1.grows
    · exact h₂.2 found mem

/-- A statement is executed where the one before it has left the static scopes. -/
theorem fits_execAll {body : List Stmt} (expects : (Task.execAll body).Expects past stack s) :
    (Task.execAll body).script.Fits past fuel ((Task.execAll body).Gives past stack s) s := by
  cases body with
  | nil => exact fits_pure ⟨.refl expects.1.sound, trivial⟩
  | cons st rest =>
    obtain ⟨ready, grammatical⟩ := expects
    refine fits_bind (fits_perform stack ⟨ready.part ready.known.left, grammatical.1⟩
      fun completion s₁ h₁ place₁ => ?_)
    cases completion with
    | normal =>
      refine fits_perform (st.after stack)
        ⟨⟨h₁.1.sound, h₁.2.2 rfl, ready.known.right⟩, grammatical.2⟩ fun _ _ h₂ _ => ?_
      have leads₂ := h₂.1
      rw [place₁.1] at leads₂
      exact ⟨h₁.1.trans leads₂, h₂.2⟩
    | returned value => exact fits_pure ⟨h₁.1, h₁.2.1⟩

/-- A turn of a loop leaves the static scopes as they are, and so does the next. -/
theorem fits_whileLoop {condition : Expr} {body : Stmt}
    (expects : (Task.whileLoop condition body).Expects past stack s) :
    (Task.whileLoop condition body).script.Fits past fuel
      ((Task.whileLoop condition body).Gives past stack s) s := by
  obtain ⟨ready, branch⟩ := expects
  refine fits_bind (fits_perform stack (ready.part ready.known.left) fun v s₁ h₁ place₁ => ?_)
  split
  · have ready₁ := (ready.part ready.known.right).keep h₁.1 place₁
    refine fits_bind (fits_perform stack ⟨ready₁, branch.2⟩ fun completion s₂ h₂ place₂ => ?_)
    cases completion with
    | normal =>
      have executes := executes_trans h₁.1.of_none place₁ h₂
      rw [Stmt.after_of_branch branch.1] at executes
      refine fits_perform stack ⟨⟨h₂.1.sound, executes.2.2 rfl, ready.known⟩, branch⟩
        fun _ _ h₃ _ => executes_trans executes.1 (place₁.trans place₂) h₃
    | returned value =>
      have executes := executes_trans h₁.1.of_none place₁ h₂
      exact fits_pure ⟨executes.1, executes.2.1, fun h => by cases h⟩
  · exact fits_pure (executes_of_yields ready h₁.1 place₁)

/-- **Every script keeps to the contract.** -/
theorem fits_script {task : Task} (expects : task.Expects past stack s) :
    task.script.Fits past fuel (task.Gives past stack s) s := by
  cases task with
  | eval e => exact fits_evalScript expects
  | evalAll es => exact fits_evalAll expects
  | evalOptional e =>
    cases e with
    | none => exact fits_pure ⟨.refl expects.sound, trivial⟩
    | some e => exact fits_perform stack expects fun _ _ h _ => h
  | call callee arguments line => exact fits_callScript expects.1 expects.2.1 expects.2.2 line
  | apply callable arguments line =>
    exact fits_applyScript expects.1 expects.2.1 expects.2.2.1 expects.2.2.2 line
  | applyMethod method arguments line =>
    obtain ⟨receiver, method⟩ := method
    obtain ⟨sound, hmethod, hargs, arity⟩ := expects
    cases method with
    | builtin method =>
      exact fits_doing none (.callMethod sound hmethod hargs line)
        (Eval.Keeps.heapLaws.callMethod _ _ _ _)
        fun _ _ leads hvalue _ => ⟨leads, hvalue⟩
    | declared closure => exact fits_perform [] ⟨sound, hmethod, hargs, arity⟩ fun _ _ h _ => h
  | applyClosure closure arguments =>
    exact fits_applyClosureScript expects.1 expects.2.1 expects.2.2.1 expects.2.2.2
  | invoke receiver name arguments line =>
    cases receiver with
    | inst id =>
      refine fits_bind (Meets.imp (fits_getProperty expects.1 id name line) fun value s₁ h₁ => ?_)
      obtain ⟨⟨leads₁, hvalue⟩, place₁⟩ := h₁
      refine fits_perform [] ⟨leads₁.sound, hvalue, fun v h => (expects.2 v h).mono leads₁.grows⟩
        fun _ _ h₂ _ => ⟨leads₁.trans h₂.1, h₂.2.1, ?_⟩
      rw [← place₁.2]
      exact h₂.2.2
    | _ => exact fits_fail expects.1
  | exec st => exact fits_execScript expects.1 expects.2
  | execAll body => exact fits_execAll expects
  | whileLoop condition body => exact fits_whileLoop expects
  | forEach cursor line name body =>
    exact fits_forEachScript expects.1 expects.2.1 expects.2.2.1 expects.2.2.2
  | cursorHasItems cursor line =>
    cases cursor with
    | direct id =>
      exact fits_doing none (.iteratorHasItems expects.1 id line)
        (Eval.Keeps.plain.iteratorHasItems _ _)
        fun _ _ leads _ _ => leads
    | protocol iterator =>
      exact fits_bind (fits_perform [] ⟨expects.1, fun _ h => by cases h⟩
        fun _ _ h _ => fits_pure h.1)
  | cursorCurrent cursor line =>
    cases cursor with
    | direct id =>
      exact fits_doing none (.iteratorCurrent expects.1 id line)
        (Eval.Keeps.plain.iteratorCurrent _ _)
        fun _ _ leads hvalue _ => ⟨leads, hvalue⟩
    | protocol iterator =>
      exact fits_perform [] ⟨expects.1, fun _ h => by cases h⟩ fun _ _ h _ => ⟨h.1, h.2.1⟩
  | cursorAdvance cursor line =>
    cases cursor with
    | direct id =>
      exact fits_doing none (.iteratorAdvance expects.1 id line)
        (Eval.Keeps.heapLaws.iteratorAdvance _ _)
        fun _ _ leads _ _ => leads
    | protocol iterator =>
      exact fits_bind (fits_perform [] ⟨expects.1, fun _ h => by cases h⟩
        fun _ _ h _ => fits_pure h.1)

end Task

/-- The contract is kept in every course of events that goes on as scripts do. -/
theorem scoping_sound {past : Past}
    (closed : ∀ m m', past.moments m → m.Next m' → past.moments m') :
    (scoping past).Sound past.moments where
  closed := closed
  meets _ _ _ _ _ expects := Task.fits_script expects
  empty task stack s expects := by
    cases task <;>
      first
      | exact State.Ready.sound expects
      | exact State.Ready.sound expects.1
      | exact expects.1

end Lox
