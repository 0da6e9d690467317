/-
# Every construct keeps to formed values

The tasks of a run are given formed values and answer with formed values (`forming`), by one lemma
for each kind of task.  Three places need more than that the parts are formed.

* A method that is read from an instance is found in the chain of its class.
* A method that `super` finds is found above the class of the method that is run, and the receiver
  is an instance of that class or of one below it; that is what the anchoring of methods says.
* A call of a built-in class makes an instance without a payload.  Only the built-in initializer
  gets to see it, and sets the payload if it does not fail.
-/
import Lox.Proofs.Eval.Forms
import Lox.Proofs.Scoping.Anchoring

namespace Lox

/-! ## 1. The regime

What tasks are given and what they answer with, for each kind of task. -/

section Forming

variable (past : Past) (heap : Heap)

/-- All of some values are formed. -/
abbrev Value.AllFormed (values : List Value) : Prop := ∀ value ∈ values, value.Formed heap

/-- A method that is about to be run on an instance, which may still lack a payload if the method
is the one that sets it. -/
structure BoundMethod.Ready (bound : BoundMethod) : Prop where
  suits : bound.method.Suits heap bound.receiver
  complete : heap.Complete bound.receiver ∨
    ∃ method, bound.method = .builtin method ∧ method.initializes

namespace Task

/-- What a task is given is formed.  An initializer is only run with a receiver. -/
def Given (σ : Store) : Task → Prop
  | call callee arguments _ => Value.AllFormed σ.heap (callee :: arguments)
  | apply callable arguments _ => Value.AllFormed σ.heap (.callable callable :: arguments)
  | applyMethod method arguments _ => method.Ready σ.heap ∧ Value.AllFormed σ.heap arguments
  | applyClosure closure arguments =>
    (closure.isInitializer →
      ∃ receiver, σ.scopes.get? closure.scope "this" = some (.inst receiver)) ∧
    Value.AllFormed σ.heap arguments
  | invoke receiver _ arguments _ => Value.AllFormed σ.heap (receiver :: arguments)
  | forEach cursor .. | cursorHasItems cursor _ | cursorCurrent cursor _ | cursorAdvance cursor _ =>
    cursor.Formed σ.heap
  | eval _ | evalAll _ | evalOptional _ | exec _ | execAll _ | whileLoop .. => True

/-- What a task answers with is formed.  Once a method has been run on an instance, the instance
has its payload. -/
def Yields : (task : Task) → task.Answer → Prop
  | eval _, value | evalOptional _, value | call .., value | apply .., value
  | applyClosure .., value | invoke .., value | cursorCurrent .., value => value.Formed heap
  | applyMethod method _ _, value => value.Formed heap ∧ heap.Complete method.receiver
  | evalAll _, values => Value.AllFormed heap values
  | exec _, completion | execAll _, completion | whileLoop .., completion
  | forEach .., completion => completion.value.Formed heap
  | cursorHasItems .., _ | cursorAdvance .., _ => True

end Task

/-- States stay formed, and so does whatever goes into tasks and comes out of them. -/
def forming : Regime where
  leads := State.Forms past
  pre _ task s := s.Formed past ∧ task.Given s.store
  gives task answer s' := task.Yields s'.heap answer

/-- What there is to show for a script. -/
abbrev Script.Forms (fuel : Nat) {α : Type} (script : Script α) (good : α → State → Prop)
    (s : State) : Prop :=
  script.Obeys (forming past) past.moments fuel s good s

end Forming

/-! ## 2. Rules for scripts

One rule for every way in which a script is put together. -/

section Rules

variable {past : Past} {fuel : Nat} {α β : Type} {s : State}

namespace Script

/-- Scripts follow each other, and the second begins where the first ends. -/
theorem forms_bind {script : Script α} {f : α → Script β} {good : β → State → Prop}
    (h : script.Forms past fuel (fun v s' => (f v).Forms past fuel good s') s) :
    (script >>= f).Forms past fuel good s :=
  obeys_bind (fun _ _ _ => State.Forms.trans) script s h

theorem forms_pure (formed : s.Formed past) {value : α} {good : α → State → Prop}
    (h : good value s) : (pure value : Script α).Forms past fuel good s :=
  ⟨.refl formed, h⟩

/-- An act, with what it is shown to do. -/
theorem forms_doing {x : Eval α} {found good : α → State → Prop} (hx : x.Forms past found s)
    (h : ∀ v s', s.Forms past s' → found v s' → good v s') : (doing x).Forms past fuel good s :=
  Ends.imp hx (fun v s' hv => ⟨hv.1, h v s' hv.1 hv.2⟩) fun _ _ hi => hi

theorem forms_fail (formed : s.Formed past) {cause : RuntimeCause} {line : Nat}
    {good : α → State → Prop} : (doing (Eval.fail cause line : Eval α)).Forms past fuel good s :=
  State.Forms.refl formed

/-- To look at the state changes nothing. -/
theorem forms_seeing (formed : s.Formed past) {view : State → α} {good : α → State → Prop}
    (h : good (view s) s) : (seeing view).Forms past fuel good s :=
  ⟨.refl formed, h⟩

/-- A scope is made that is not for a receiver. -/
theorem forms_opening {lo hi : Nat} (openings : Openings past.moments lo hi)
    (formed : s.Formed past) {origin : ScopeOrigin} (other : ∀ method, origin ≠ .receiver method)
    (enclosing : ScopeId) {good : ScopeId → State → Prop}
    (h : ∀ s', s.Forms past s' → good s.scopes.all.size s') :
    (opening origin enclosing).Forms past fuel good s := by
  intro opens
  have leads := formed.newScope enclosing fun method opened =>
    other method (Past.Opened.origin_eq openings ⟨s, opens, rfl⟩ opened)
  exact ⟨leads, h _ leads⟩

/-- A scope that is not for a receiver. -/
theorem forms_openScope {lo hi : Nat} (openings : Openings past.moments lo hi)
    (formed : s.Formed past) {origin : ScopeOrigin} (other : ∀ method, origin ≠ .receiver method)
    {good : ScopeId → State → Prop} (h : ∀ scope s', s.Forms past s' → good scope s') :
    (openScope origin).Forms past fuel good s :=
  forms_bind (forms_seeing formed (forms_opening openings formed other _ (h _)))

/-- To call a task with what it has to be given. -/
theorem forms_perform (formed : s.Formed past) {task : Task} {good : task.Answer → State → Prop}
    (given : task.Given s.store)
    (h : ∀ v s', s.Forms past s' → task.Yields s'.heap v → good v s') :
    (perform task).Forms past fuel good s := by
  refine ⟨.refl formed, fun inner entered _ => ?_⟩
  cases entered
  exact ⟨⟨formed, given⟩, fun v s' _ leads yields => ⟨.refl leads.formed, h v s' leads yields⟩⟩

/-- So it is in another scope. -/
theorem forms_performIn (formed : s.Formed past) (scope : ScopeId) {task : Task}
    {good : task.Answer → State → Prop} (given : task.Given s.store)
    (h : ∀ v s', s.Forms past s' → task.Yields s'.heap v → good v s') :
    (performIn scope task).Forms past fuel good s := by
  refine ⟨.refl formed, fun inner entered _ => ?_⟩
  cases entered
  have inside : State.Formed past { s with scope := scope } :=
    ⟨formed.heap, formed.bound, formed.receivers⟩
  exact ⟨⟨inside, given⟩, fun v s' _ leads yields => ⟨.refl leads.formed, h v _ leads yields⟩⟩

/-- So it is with one more call in progress. -/
theorem forms_call (formed : s.Formed past) {task : Task} {line : Nat}
    {good : task.Answer → State → Prop} (given : task.Given s.store)
    (h : ∀ v s', s.Forms past s' → task.Yields s'.heap v → good v s') :
    (Script.call (.call line) task .done).Forms past fuel good s := by
  refine ⟨.refl formed, fun inner entered _ => ?_⟩
  simp only [Frame.enter] at entered
  split at entered
  · cases entered
  · cases entered
    have deeper : State.Formed past { s with depth := s.depth + 1 } :=
      ⟨formed.heap, formed.bound, formed.receivers⟩
    exact ⟨⟨deeper, given⟩, fun v s' _ leads yields => ⟨.refl leads.formed, h v _ leads yields⟩⟩

end Script

end Rules

/-! ## 3. Methods and properties

Where a method is looked up, it is known what the receiver is an instance of. -/

/-- The closures of methods are marked as their declarations say. -/
theorem Eval.flagged_newMethods (scope : ScopeId) (declarations : List FunDecl)
    {methods : Bindings Closure} (flagged : ∀ name closure, methods.get? name = some closure →
      closure.isInitializer = closure.declaration.isInitializer) (s : State) :
    ∃ found stamp, newMethods scope declarations methods s = .ok found { s with stamp := stamp } ∧
      ∀ name closure, found.get? name = some closure →
        closure.isInitializer = closure.declaration.isInitializer := by
  induction declarations generalizing methods s with
  | nil => exact ⟨methods, s.stamp, rfl, flagged⟩
  | cons declaration rest ih =>
    have added : ∀ name closure, (methods.insert declaration.name.text
        ⟨s.stamp, declaration, scope, declaration.isInitializer⟩).get? name = some closure →
          closure.isInitializer = closure.declaration.isInitializer := by
      intro name closure own
      rw [Bindings.get?_insert] at own
      split at own
      · cases own
        rfl
      · exact flagged name closure own
    exact ih added { s with stamp := s.stamp + 1 }

/-- A new instance of a class has its payload, unless the class is built in; then the class has a
method that sets it. -/
theorem Class.Formed.complete_or {cls : Class} (formed : cls.Formed) {heap : Heap}
    {id : InstanceId} (hcls : heap.class? id = some cls) :
    heap.Complete id ∨ ∃ method, cls.findMethod? initializerName = some (.builtin method) ∧
      method.initializes := by
  cases hb : cls.isBuiltin with
  | false => exact Or.inl ⟨cls, hcls, fun h => absurd (hb.symm.trans h) Bool.false_ne_true⟩
  | true =>
    obtain ⟨kind, rfl⟩ := Class.root?_of_isBuiltin hb
    obtain ⟨method, found, -, initializes⟩ :=
      BuiltinClass.method?_initializer (formed.global kind rfl)
    exact Or.inr ⟨method, by rw [findMethod?, found, Option.map_some], initializes⟩

namespace Task

open Script

variable {past : Past} {fuel : Nat} {s : State} {lo hi : Nat}

/-- A method that suits an instance is bound to it. -/
theorem forms_bindMethod (formed : s.Formed past) {receiver : InstanceId} {method : Method}
    (suits : method.Suits s.heap receiver)
    (ready : s.heap.Complete receiver ∨
      ∃ builtin, method = .builtin builtin ∧ builtin.initializes) :
    (bindMethod receiver method).Forms past fuel
      (fun bound s' => s.Forms past s' ∧ bound.receiver = receiver ∧ bound.Ready s'.heap) s := by
  cases method with
  | builtin builtin => exact forms_pure formed ⟨.refl formed, rfl, suits, ready⟩
  | declared closure =>
    have complete : s.heap.Complete receiver := ready.resolve_right fun ⟨_, other, _⟩ => nomatch other
    intro _
    have leads := formed.receive closure.scope complete (s.stamp + 1)
    exact ⟨leads, leads, rfl, suits, Or.inl complete⟩

/-- A bound method as a value. -/
theorem forms_bound (formed : s.Formed past) {receiver : InstanceId} {method : Method}
    (suits : method.Suits s.heap receiver) (complete : s.heap.Complete receiver) :
    (do return .callable (.bound (← bindMethod receiver method)) : Script Value).Forms past fuel
      (fun value s' => s.Forms past s' ∧ value.Formed s'.heap) s := by
  refine forms_bind (Obeys.imp (forms_bindMethod formed suits (Or.inl complete))
    fun bound s₁ h => ?_)
  obtain ⟨leads, rfl, ready⟩ := h
  exact forms_pure leads.formed ⟨leads, complete.mono leads.grows, ready.suits⟩

/-- A field is formed, and a method is found in the chain of the class of the instance. -/
theorem forms_getProperty (formed : s.Formed past) {id : InstanceId} (complete : s.heap.Complete id)
    (name : String) (line : Nat) :
    (getProperty id name line).Forms past fuel
      (fun value s' => s.Forms past s' ∧ value.Formed s'.heap) s := by
  refine forms_bind (forms_seeing formed ?_)
  split
  · rename_i value found
    exact forms_pure formed ⟨.refl formed, formed.heap.fields id name value found⟩
  · split
    · rename_i method found
      obtain ⟨cls, hcls, hmethod⟩ := Option.bind_eq_some_iff.1 found
      obtain ⟨level, above, own⟩ := Class.own?_of_findMethod? hmethod
      exact forms_bound formed ((formed.heap.classes id cls hcls).suits above own hcls) complete
    · exact forms_fail formed

/-- The method that `super` finds stands above the class of the method that is run, and the receiver
is an instance of that class or of one below it. -/
theorem forms_superMethod (anchored : s.Anchored past) (formed : s.Formed past) (node : Id)
    (line : Nat) (method : Name) :
    (superMethod node line method).Forms past fuel (fun value s' => value.Formed s'.heap) s := by
  refine forms_bind (forms_seeing formed ?_)
  dsimp only [id]
  split
  · split
    · rename_i inner _ superclass receiver hsuper hthis
      obtain ⟨scope, cls, info, name, closure, -, this, receives⟩ := anchored.super hsuper hthis
      split
      · rename_i found hfound
        obtain ⟨upper, hupper, own⟩ := Class.own?_of_findMethod? hfound
        have above : upper ∈ cls.chain :=
          (Class.chain_suffix_of_mem receives.above).subset (List.mem_cons_of_mem _ hupper)
        have flagged := formed.heap.classes receiver cls receives.class
        exact Obeys.imp (forms_bound formed (flagged.suits above own receives.class)
          (formed.bound scope _ _ this)) fun _ _ h => h.2
      · exact forms_fail formed
    · exact forms_fail formed
    · exact forms_fail formed
    · exact forms_fail formed
  · exact forms_fail formed

/-! ## 4. Expressions and calls

An instance of a built-in class is complete once its initializer has run. -/

/-- One case for each kind of expression. -/
theorem forms_evalScript {e : Expr} (anchored : s.Anchored past) (formed : s.Formed past) :
    (evalScript e).Forms past fuel (fun value s' => value.Formed s'.heap) s := by
  cases e with
  | literal value =>
    refine forms_pure formed ?_
    cases value <;> trivial
  | grouping inner => exact forms_perform formed trivial fun _ _ _ h => h
  | unary op line operand =>
    refine forms_bind (forms_perform formed trivial fun v s₁ leads _ => ?_)
    exact forms_doing (.computes leads.formed (.unary _ _ _)) fun _ _ _ h => h
  | binary op line left right =>
    refine forms_bind (forms_perform formed trivial fun l s₁ leads₁ _ => ?_)
    refine forms_bind (forms_perform leads₁.formed trivial fun r s₂ leads₂ _ => ?_)
    exact forms_doing (.computes leads₂.formed (.binary _ _ _ _)) fun _ _ _ h => h
  | logical op line left right =>
    refine forms_bind (forms_perform formed trivial fun l s₁ leads hl => ?_)
    split
    · exact forms_pure leads.formed hl
    · exact forms_perform leads.formed trivial fun _ _ _ h => h
  | «variable» v => exact forms_doing (.readVariable formed _ _ _) fun _ _ _ h => h
  | assign target value =>
    refine forms_bind (forms_perform formed trivial fun v s₁ leads₁ hv => ?_)
    refine forms_bind (forms_doing (.writeVariable leads₁.formed target hv) fun _ s₂ leads₂ _ => ?_)
    exact forms_pure leads₂.formed (Value.Formed.mono leads₂.grows hv)
  | call callee arguments line =>
    refine forms_bind (forms_perform formed trivial fun f s₁ leads₁ hf => ?_)
    refine forms_bind (forms_perform leads₁.formed trivial fun values s₂ leads₂ hvalues => ?_)
    refine forms_perform leads₂.formed (fun value h => ?_) fun _ _ _ h => h
    rcases List.mem_cons.1 h with rfl | h
    · exact Value.Formed.mono leads₂.grows hf
    · exact hvalues value h
  | get object property =>
    refine forms_bind (forms_perform formed trivial fun v s₁ leads hv => ?_)
    split
    · exact Obeys.imp (forms_getProperty leads.formed hv _ _) fun _ _ h => h.2
    · exact forms_fail leads.formed
  | set object property value =>
    refine forms_bind (forms_perform formed trivial fun v s₁ leads₁ _ => ?_)
    split
    · refine forms_bind (forms_perform leads₁.formed trivial fun w s₂ leads₂ hw => ?_)
      refine forms_bind (forms_doing (.setField leads₂.formed _ _ hw) fun _ s₃ leads₃ _ => ?_)
      exact forms_pure leads₃.formed (Value.Formed.mono leads₃.grows hw)
    · exact forms_fail leads₁.formed
  | this id line => exact forms_doing (.readVariable formed _ _ _) fun _ _ _ h => h
  | super id line method => exact forms_superMethod anchored formed _ _ _
  | list line elements =>
    refine forms_bind (forms_perform formed trivial fun values s₁ leads hvalues => ?_)
    exact forms_doing (.newList leads.formed hvalues) fun _ _ _ h => h

/-- A callee that is formed is applied to arguments that are. -/
theorem forms_callScript (formed : s.Formed past) {callee : Value} {arguments : List Value}
    (given : Value.AllFormed s.heap (callee :: arguments)) (line : Nat) :
    (callScript callee arguments line).Forms past fuel (fun value s' => value.Formed s'.heap) s := by
  unfold callScript
  split
  · split
    · exact forms_call formed given fun _ _ _ h => h
    · exact forms_fail formed
  · exact forms_fail formed

/-- A class makes an instance, and its initializer sees it before anything else does. -/
theorem forms_applyScript (formed : s.Formed past) {callable : Callable} {arguments : List Value}
    (given : Value.AllFormed s.heap (.callable callable :: arguments)) (line : Nat) :
    (applyScript callable arguments line).Forms past fuel (fun value s' => value.Formed s'.heap)
      s := by
  have harguments : Value.AllFormed s.heap arguments :=
    fun value h => given value (List.mem_cons_of_mem _ h)
  have hcallable := given _ List.mem_cons_self
  cases callable with
  | builtin function =>
    exact forms_doing (.computes formed (.callFunction _ _ _)) fun _ _ _ h => h
  | closure closure =>
    -- functions are no initializers
    have ordinary : closure.isInitializer = false := hcallable
    exact forms_perform formed
      ⟨fun flag => absurd (ordinary.symm.trans flag) Bool.false_ne_true, harguments⟩
      fun _ _ _ h => h
  | bound method =>
    obtain ⟨complete, suits⟩ := hcallable
    exact forms_perform formed ⟨⟨suits, Or.inl complete⟩, harguments⟩ fun _ _ _ h => h.1
  | «class» cls =>
    have hformed : cls.Formed := hcallable
    refine forms_bind (forms_doing (.newInstance formed hformed.flagged nofun)
      fun id s₁ leads₁ made => ?_)
    have ready := hformed.complete_or made.1
    split
    · rename_i initializer found
      obtain ⟨level, above, own⟩ := Class.own?_of_findMethod? found
      refine forms_bind (Obeys.imp (forms_bindMethod leads₁.formed
        (hformed.flagged.suits above own made.1) (ready.imp_right ?_)) fun bound s₂ h₂ => ?_)
      · rintro ⟨builtin, found', initializes⟩
        exact ⟨builtin, Option.some.inj (found.symm.trans found'), initializes⟩
      · obtain ⟨leads₂, rfl, ready₂⟩ := h₂
        have later : Value.AllFormed s₂.heap arguments :=
          fun value h => (harguments value h).mono (leads₁.trans leads₂).grows
        exact forms_bind (forms_perform leads₂.formed ⟨ready₂, later⟩
          fun _ s₃ leads₃ yields => forms_pure leads₃.formed yields.2)
    · rename_i none
      refine forms_pure leads₁.formed (ready.resolve_right ?_)
      rintro ⟨builtin, found, -⟩
      cases none.symm.trans found

/-- The parameters of a closure get formed arguments. -/
theorem forms_applyClosureScript (openings : Openings past.moments lo hi) (formed : s.Formed past)
    {closure : Closure} {arguments : List Value} (given : Value.AllFormed s.heap arguments) :
    (applyClosureScript closure arguments).Forms past fuel (fun value s' => value.Formed s'.heap)
      s := by
  refine forms_bind (forms_opening openings formed (by nofun) _ fun s₁ leads₁ => ?_)
  refine forms_bind (forms_doing (.defineAll leads₁.formed _ _
    fun value h => (given value h).mono leads₁.grows) fun _ s₂ leads₂ _ => ?_)
  refine forms_bind (forms_performIn leads₂.formed _ trivial fun completion s₃ leads₃ hvalue => ?_)
  exact forms_doing (.callResult leads₃.formed closure hvalue) fun _ _ _ h => h

/-! ## 5. Statements

A class that is declared has the superclass that it has been given. -/

/-- The scope of a superclass binds a class that is formed. -/
theorem forms_methodScope (openings : Openings past.moments lo hi) (formed : s.Formed past)
    {superclass : Option Class} (hsuper : ∀ cls ∈ superclass, cls.Formed) (methods : List FunDecl) :
    (methodScope methods superclass).Forms past fuel (fun _ s' => s'.Formed past) s := by
  cases superclass with
  | none => exact forms_seeing formed formed
  | some superclass =>
    refine forms_bind (forms_openScope openings formed (by nofun) fun scope s₁ leads₁ => ?_)
    exact forms_bind (forms_doing (.defineIn leads₁.formed _ _ (hsuper superclass rfl))
      fun _ s₂ leads₂ _ => forms_pure leads₂.formed leads₂.formed)

/-- A class is formed if its superclass is, and its methods are closures. -/
theorem forms_declareClass (openings : Openings past.moments lo hi) (formed : s.Formed past)
    (name : Name) {superclass : Option Class} (hsuper : ∀ cls ∈ superclass, cls.Formed)
    (methods : List FunDecl) :
    (declareClass name superclass methods).Forms past fuel (fun _ s' => s'.Formed past) s := by
  refine forms_bind (forms_doing (.define formed _ trivial) fun _ s₁ leads₁ _ => ?_)
  refine forms_bind (Obeys.imp (forms_methodScope openings leads₁.formed hsuper methods)
    fun scope s₂ formed₂ => ?_)
  have stamps : ∀ {t : State} (stamp : Nat), t.Formed past →
      t.Forms past { t with stamp := stamp } :=
    fun _ h => .of_same h ⟨rfl, rfl⟩
  have stamped : Eval.freshStamp.Forms past (fun _ s' => s'.Formed past) s₂ :=
    ⟨stamps _ formed₂, (stamps _ formed₂).formed⟩
  refine forms_bind (forms_doing stamped fun stamp s₃ _ formed₃ => ?_)
  have none : ∀ name (closure : Closure), Bindings.empty.get? name = some closure →
      closure.isInitializer = closure.declaration.isInitializer := fun _ _ h => by cases h
  obtain ⟨closures, next, made, flagged⟩ := Eval.flagged_newMethods scope methods none s₃
  have makes : (Eval.newMethods scope methods .empty).Forms past (fun found _ => found = closures)
      s₃ := by
    unfold Eval.Forms
    rw [made]
    exact ⟨stamps next formed₃, rfl⟩
  refine forms_bind (forms_doing makes fun found s₄ leads₄ h₄ => ?_)
  subst h₄
  refine forms_doing (.define leads₄.formed _ ?_) fun _ s₅ leads₅ _ => leads₅.formed
  cases superclass with
  | none =>
    refine ⟨fun level above other closure own => ?_, nofun⟩
    obtain rfl := List.mem_singleton.1 above
    exact flagged other closure own
  | some superclass =>
    have above := hsuper superclass rfl
    refine ⟨fun level mem other closure own => ?_, above.global⟩
    rcases List.mem_cons.1 mem with rfl | mem
    · exact flagged other closure own
    · exact above.flagged level mem other closure own

/-- A superclass is a formed value like any other. -/
theorem forms_classDecl (openings : Openings past.moments lo hi) (formed : s.Formed past)
    (name : Name) (superclass : Option Variable) (methods : List FunDecl) :
    (execScript (.classDecl name superclass methods)).Forms past fuel
      (fun completion s' => completion.value.Formed s'.heap) s := by
  cases superclass with
  | none =>
    exact forms_bind (forms_pure formed (forms_bind (Obeys.imp
      (forms_declareClass openings formed name (by simp) methods)
      fun _ s₁ formed₁ => forms_pure formed₁ trivial)))
  | some parent =>
    refine forms_bind (forms_perform formed trivial fun v s₁ leads₁ hv => ?_)
    have finds : (Eval.superclassOf parent.name v).Forms past (fun cls _ => cls.Formed) s₁ := by
      unfold Eval.superclassOf
      split
      · exact ⟨.refl leads₁.formed, hv⟩
      · exact State.Forms.refl leads₁.formed
    refine forms_bind (forms_doing finds fun cls s₂ leads₂ hcls => ?_)
    refine forms_bind (forms_pure leads₂.formed (forms_bind (Obeys.imp
      (forms_declareClass openings leads₂.formed name (fun found h => ?_) methods)
      fun _ s₃ formed₃ => forms_pure formed₃ trivial)))
    cases h
    exact hcls

/-- One case for each kind of statement. -/
theorem forms_execScript (openings : Openings past.moments lo hi) (formed : s.Formed past)
    {st : Stmt} :
    (execScript st).Forms past fuel (fun completion s' => completion.value.Formed s'.heap) s := by
  cases st with
  | print line value =>
    refine forms_bind (forms_perform formed trivial fun v s₁ leads₁ _ => ?_)
    exact forms_bind (forms_doing (.printValue leads₁.formed _ _) fun _ s₂ leads₂ _ =>
      forms_pure leads₂.formed trivial)
  | expression value =>
    exact forms_bind (forms_perform formed trivial fun v s₁ leads₁ _ =>
      forms_pure leads₁.formed trivial)
  | varDecl name initializer =>
    refine forms_bind (forms_perform formed trivial fun v s₁ leads₁ hv => ?_)
    exact forms_bind (forms_doing (.define leads₁.formed _ hv) fun _ s₂ leads₂ _ =>
      forms_pure leads₂.formed trivial)
  | block body =>
    refine forms_bind (forms_openScope openings formed (by simp) fun scope s₁ leads₁ => ?_)
    exact forms_performIn leads₁.formed _ trivial fun _ _ _ h => h
  | ifElse condition thenBranch elseBranch =>
    refine forms_bind (forms_perform formed trivial fun v s₁ leads₁ _ => ?_)
    split
    · exact forms_perform leads₁.formed trivial fun _ _ _ h => h
    · split
      · exact forms_perform leads₁.formed trivial fun _ _ _ h => h
      · exact forms_pure leads₁.formed trivial
  | whileLoop condition body => exact forms_perform formed trivial fun _ _ _ h => h
  | forEach line name iterable body =>
    refine forms_bind (forms_perform formed trivial fun v s₁ leads₁ hv => ?_)
    split
    · refine forms_bind (forms_perform leads₁.formed (fun value h => ?_)
        fun iterator s₂ leads₂ hiterator => ?_)
      · obtain rfl := List.mem_singleton.1 h
        exact hv
      · refine forms_bind (forms_doing (.cursorFor leads₂.formed hiterator)
          fun cursor s₃ leads₃ hcursor => ?_)
        exact forms_perform leads₃.formed hcursor fun _ _ _ h => h
    · exact forms_fail leads₁.formed
  | funDecl declaration =>
    have makes : (do Eval.newClosure declaration (← get).scope false : Eval Closure).Forms past
        (fun closure _ => closure.isInitializer = false) s :=
      ⟨.of_same formed ⟨rfl, rfl⟩, rfl⟩
    refine forms_bind (forms_doing makes fun closure s₁ leads₁ hclosure => ?_)
    exact forms_bind (forms_doing (.define leads₁.formed _ hclosure)
      fun _ s₂ leads₂ _ => forms_pure leads₂.formed trivial)
  | ret line value =>
    exact forms_bind (forms_perform formed trivial fun v s₁ leads₁ hv =>
      forms_pure leads₁.formed hv)
  | classDecl name superclass methods =>
    exact forms_classDecl openings formed name superclass methods

/-- A loop steps an iterator that is formed, and gives formed values to its variable. -/
theorem forms_forEachScript (openings : Openings past.moments lo hi) (formed : s.Formed past)
    {cursor : Cursor} (hcursor : cursor.Formed s.heap) (line : Nat) (name : Name) (body : Stmt) :
    (forEachScript cursor line name body).Forms past fuel
      (fun completion s' => completion.value.Formed s'.heap) s := by
  refine forms_bind (forms_perform formed hcursor fun more s₁ leads₁ _ => ?_)
  split
  · refine forms_bind (forms_openScope openings leads₁.formed (by nofun) fun scope s₂ leads₂ => ?_)
    have leads₁₂ := leads₁.trans leads₂
    refine forms_bind (forms_perform leads₂.formed (hcursor.mono leads₁₂.grows)
      fun value s₃ leads₃ hvalue => ?_)
    refine forms_bind (forms_doing (.defineIn leads₃.formed _ _ hvalue) fun _ s₄ leads₄ _ => ?_)
    refine forms_bind (forms_performIn leads₄.formed _ trivial
      fun completion s₅ leads₅ hcompletion => ?_)
    have leads₁₅ := leads₁₂.trans (leads₃.trans (leads₄.trans leads₅))
    cases completion with
    | returned value => exact forms_pure leads₅.formed hcompletion
    | normal =>
      refine forms_bind (forms_perform leads₅.formed (hcursor.mono leads₁₅.grows)
        fun _ s₆ leads₆ _ => ?_)
      exact forms_perform leads₆.formed (hcursor.mono (leads₁₅.trans leads₆).grows) fun _ _ _ h => h
  · exact forms_pure leads₁.formed trivial

/-! ## 6. All tasks

The larger cases have lemmas of their own. -/

/-- A method that a class declares only runs on a complete receiver. -/
theorem forms_applyMethod {method : BoundMethod} {arguments : List Value} {line : Nat}
    (anchored : (anchoring past).pre (fuel + 1) (.applyMethod method arguments line) s)
    (formed : s.Formed past) (given : (Task.applyMethod method arguments line).Given s.store) :
    (Task.applyMethod method arguments line).script.Forms past fuel
      (fun answer s' => (Task.applyMethod method arguments line).Yields s'.heap answer) s := by
  obtain ⟨⟨suits, ready⟩, harguments⟩ := given
  obtain ⟨receiver, method⟩ := method
  cases method with
  | builtin method =>
    refine forms_doing (.callMethod formed suits (ready.imp_right ?_) harguments _)
      fun _ _ _ h => h
    rintro ⟨_, ⟨⟩, initializes⟩
    exact initializes
  | declared closure =>
    have complete : s.heap.Complete receiver :=
      ready.resolve_right fun ⟨_, other, _⟩ => nomatch other
    obtain ⟨this, -⟩ := anchored.2 _ List.mem_cons_self
    exact forms_perform formed ⟨fun _ => ⟨receiver, this⟩, harguments⟩
      fun _ _ leads h => ⟨h, complete.mono leads.grows⟩

/-- What is called is what the property of the receiver is. -/
theorem forms_invoke {receiver : Value} {name : String} {arguments : List Value} {line : Nat}
    (formed : s.Formed past) (given : (Task.invoke receiver name arguments line).Given s.store) :
    (Task.invoke receiver name arguments line).script.Forms past fuel
      (fun answer s' => (Task.invoke receiver name arguments line).Yields s'.heap answer) s := by
  cases receiver with
  | inst id =>
    refine forms_bind (Obeys.imp (forms_getProperty formed (given _ List.mem_cons_self) name line)
      fun value s₁ h₁ => ?_)
    obtain ⟨leads₁, hvalue⟩ := h₁
    refine forms_perform leads₁.formed (fun found h => ?_) fun _ _ _ h => h
    rcases List.mem_cons.1 h with rfl | h
    · exact hvalue
    · exact (given found (List.mem_cons_of_mem _ h)).mono leads₁.grows
  | _ => exact forms_fail formed

/-- A loop goes on from whatever state a turn has left. -/
theorem forms_whileLoop (formed : s.Formed past) (condition : Expr) (body : Stmt) :
    (Task.whileLoop condition body).script.Forms past fuel
      (fun answer s' => (Task.whileLoop condition body).Yields s'.heap answer) s := by
  refine forms_bind (forms_perform formed trivial fun v s₁ leads₁ _ => ?_)
  split
  · refine forms_bind (forms_perform leads₁.formed trivial
      fun completion s₂ leads₂ hcompletion => ?_)
    cases completion with
    | normal => exact forms_perform leads₂.formed trivial fun _ _ _ h => h
    | returned value => exact forms_pure leads₂.formed hcompletion
  · exact forms_pure leads₁.formed trivial

/-- **Every script is led by formed values to formed values.** -/
theorem forms_script (openings : Openings past.moments lo hi) {task : Task}
    (anchored : (anchoring past).pre (fuel + 1) task s) (formed : s.Formed past)
    (given : task.Given s.store) :
    task.script.Forms past fuel (fun answer s' => task.Yields s'.heap answer) s := by
  cases task with
  | eval e => exact forms_evalScript anchored.1 formed
  | evalAll es =>
    cases es with
    | nil => exact forms_pure formed fun _ h => by cases h
    | cons e es =>
      refine forms_bind (forms_perform formed trivial fun value s₁ leads₁ hvalue => ?_)
      refine forms_bind (forms_perform leads₁.formed trivial
        fun values s₂ leads₂ hvalues => forms_pure leads₂.formed fun found h => ?_)
      rcases List.mem_cons.1 h with rfl | h
      · exact Value.Formed.mono leads₂.grows hvalue
      · exact hvalues found h
  | evalOptional e =>
    cases e with
    | none => exact forms_pure formed trivial
    | some e => exact forms_perform formed trivial fun _ _ _ h => h
  | call callee arguments line => exact forms_callScript formed given line
  | apply callable arguments line => exact forms_applyScript formed given line
  | applyMethod method arguments line => exact forms_applyMethod anchored formed given
  | applyClosure closure arguments => exact forms_applyClosureScript openings formed given.2
  | invoke receiver name arguments line => exact forms_invoke formed given
  | exec st => exact forms_execScript openings formed
  | execAll body =>
    cases body with
    | nil => exact forms_pure formed trivial
    | cons st rest =>
      refine forms_bind (forms_perform formed trivial fun completion s₁ leads₁ hcompletion => ?_)
      cases completion with
      | normal => exact forms_perform leads₁.formed trivial fun _ _ _ h => h
      | returned value => exact forms_pure leads₁.formed hcompletion
  | whileLoop condition body => exact forms_whileLoop formed condition body
  | forEach cursor line name body => exact forms_forEachScript openings formed given line name body
  | cursorHasItems cursor line =>
    cases cursor with
    | direct id =>
      exact forms_doing (.of_looks formed (Eval.Looks.plain.iteratorHasItems id line))
        fun _ _ _ _ => trivial
    | protocol iterator =>
      refine forms_bind (forms_perform formed (fun value h => ?_) fun _ s₁ leads₁ _ =>
        forms_pure leads₁.formed trivial)
      obtain rfl := List.mem_singleton.1 h
      exact given
  | cursorCurrent cursor line =>
    cases cursor with
    | direct id => exact forms_doing (.iteratorCurrent formed id line) fun _ _ _ h => h
    | protocol iterator =>
      refine forms_perform formed (fun value h => ?_) fun _ _ _ h => h
      obtain rfl := List.mem_singleton.1 h
      exact given
  | cursorAdvance cursor line =>
    cases cursor with
    | direct id => exact forms_doing (.iteratorAdvance formed id line) fun _ _ _ _ => trivial
    | protocol iterator =>
      refine forms_bind (forms_perform formed (fun value h => ?_) fun _ s₁ leads₁ _ =>
        forms_pure leads₁.formed trivial)
      obtain rfl := List.mem_singleton.1 h
      exact given

end Task

/-- The regime is kept to in every course of events in which methods are anchored. -/
theorem forming_sound {past : Past} {lo hi : Nat} (openings : Openings past.moments lo hi)
    (closed : ∀ m m', past.moments m → m.Next m' → past.moments m')
    (anchored : ∀ fuel task s, past.moments (.begins fuel task s) →
      (anchoring past).pre fuel task s) :
    (forming past).Sound past.moments where
  closed := closed
  trans _ _ _ := State.Forms.trans
  here _ _ _ h := .refl h.1
  stays _ _ h := .refl h.formed
  leave frame s inner s' start entered h := by
    have same : s'.SameStore (frame.leave s s') := by cases frame <;> exact ⟨rfl, rfl⟩
    have left := State.Forms.of_same h.formed same
    have grows : s.heap.Grows s'.heap := by
      cases frame with
      | same | scope id =>
        cases entered
        exact h.grows
      | call line =>
        simp only [Frame.enter] at entered
        split at entered
        · cases entered
        · cases entered
          exact h.grows
    exact ⟨⟨left.formed, grows.trans left.grows⟩, left⟩
  obeys fuel task s begun h := Task.forms_script openings (anchored _ _ _ begun) h.1 h.2

end Lox
