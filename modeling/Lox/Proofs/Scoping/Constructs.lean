/-
# Every construct keeps functions and methods anchored

One lemma for each kind of task, with one case for each construct.  That the names in the code are
ordinary is what the scoping contract says of code that is evaluated (`Task.Expects`).
`anchoring_sound` puts the lemmas together.
-/
import Lox.Proofs.Scoping.Anchoring

namespace Lox

open Occurrence (declaring ofExpr ofStmt)
open StaticScope (fresh bindName)

namespace Task

open Script

variable {past earlier : Past} {fuel : Nat} {stack : List StaticScope} {s : State}

/-! ## 1. Methods and properties -/

/-- A method of the class of an instance, or of one above it, is bound to the instance: its new
scope lies in the scope that the method keeps. -/
theorem anchors_bindMethod (anchored : s.Anchored past) {receiver : InstanceId} {cls level : Class}
    (hcls : s.heap.class? receiver = some cls) (above : level ∈ cls.chain) {name : String}
    {method : Method} (own : level.own? name = some method) :
    (bindMethod receiver method).Anchors past fuel
      (fun bound s' => s.Retains past s' ∧
        (Value.callable (.bound bound)).Anchored past s'.scopes) s := by
  cases method with
  | builtin method => exact anchors_pure anchored ⟨.refl anchored, trivial⟩
  | declared closure =>
    have own := Class.own?_eq_declared.1 own
    have kept : closure.MethodOf past s.scopes level :=
      anchored.within _ (.class hcls) level above name closure own
    intro opens
    have opened : past.Opened s.scopes.all.size (.receiver closure.declaration) := ⟨s, opens, rfl⟩
    have retains := Store.Retains.opened s.store closure.scope "this" (.inst receiver)
    have store : (s.store.opened closure.scope "this" (.inst receiver)).Anchored past := by
      refine anchored.store.opened kept.lt_size kept.this trivial fun _ => ?_
      refine ⟨receiver, cls, level, name, closure, rfl, hcls, above, own, ?_, opened⟩
      rw [Store.enclosing?_opened]
      exact if_pos rfl
    have leads := anchored.setScopes store retains (s.stamp + 1)
    have this : (s.store.opened closure.scope "this" (.inst receiver)).scopes.get?
        s.store.scopes.all.size "this" = some (.inst receiver) := by
      rw [Store.get?_opened]
      exact if_pos ⟨rfl, rfl⟩
    exact ⟨leads, leads, this, opened⟩

/-- A bound method as a value. -/
theorem anchors_bound (anchored : s.Anchored past) {receiver : InstanceId} {cls level : Class}
    (hcls : s.heap.class? receiver = some cls) (above : level ∈ cls.chain) {name : String}
    {method : Method} (own : level.own? name = some method) :
    (do return .callable (.bound (← bindMethod receiver method)) : Script Value).Anchors past fuel
      (fun value s' => s.Retains past s' ∧ value.Anchored past s'.scopes) s :=
  anchors_bind (Obeys.imp (anchors_bindMethod anchored hcls above own) fun _ _ h =>
    anchors_pure h.1.anchored h)

theorem anchors_getProperty (anchored : s.Anchored past) (id : InstanceId) (name : String)
    (line : Nat) :
    (getProperty id name line).Anchors past fuel
      (fun value s' => s.Retains past s' ∧ value.Anchored past s'.scopes) s := by
  refine anchors_bind (anchors_seeing anchored ?_)
  split
  · rename_i value found
    exact anchors_pure anchored ⟨.refl anchored, anchored.within _ (.field found)⟩
  · split
    · rename_i method found
      obtain ⟨cls, hcls, hmethod⟩ := Option.bind_eq_some_iff.1 found
      obtain ⟨level, above, own⟩ := Class.own?_of_findMethod? hmethod
      exact anchors_bound anchored hcls above own
    · exact anchors_fail anchored

/-- Through `super`, a method is found above the class of the method that is run, and bound to the
same receiver. -/
theorem anchors_superMethod (anchored : s.Anchored past) (node : Id) (line : Nat) (method : Name) :
    (superMethod node line method).Anchors past fuel
      (fun value s' => s.Retains past s' ∧ value.Anchored past s'.scopes) s := by
  refine anchors_bind (anchors_seeing anchored ?_)
  dsimp only [id]
  split
  · split
    · rename_i inner _ superclass receiver hsuper hthis
      obtain ⟨scope, cls, info, name, closure, -, -, receives⟩ := anchored.super hsuper hthis
      split
      · rename_i found hfound
        obtain ⟨upper, hupper, own⟩ := Class.own?_of_findMethod? hfound
        have above : upper ∈ cls.chain :=
          (Class.chain_suffix_of_mem receives.above).subset (List.mem_cons_of_mem _ hupper)
        exact anchors_bound anchored receives.class above own
      · exact anchors_fail anchored
    · exact anchors_fail anchored
    · exact anchors_fail anchored
    · exact anchors_fail anchored
  · exact anchors_fail anchored

/-! ## 2. Expressions -/

theorem anchors_evalScript {e : Expr} (ready : s.Ready earlier stack (ofExpr stack e))
    (anchored : s.Anchored past) :
    (evalScript e).Anchors past fuel (fun value s' => value.Anchored past s'.scopes) s := by
  have harmless := Value.harmless_anchored past
  cases e with
  | literal value =>
    refine anchors_pure anchored ?_
    cases value <;> trivial
  | grouping inner => exact anchors_perform anchored trivial fun _ _ _ h => h
  | unary op line operand =>
    refine anchors_bind (anchors_perform anchored trivial fun v s₁ leads₁ _ => ?_)
    exact anchors_rearranging leads₁.anchored
      (.unary (harmless _) leads₁.anchored.within _ _ _) fun _ _ _ h same => same ▸ h
  | binary op line left right =>
    refine anchors_bind (anchors_perform anchored trivial fun l s₁ leads₁ _ => ?_)
    refine anchors_bind (anchors_perform leads₁.anchored trivial fun r s₂ leads₂ _ => ?_)
    exact anchors_rearranging leads₂.anchored
      (.binary (harmless _) leads₂.anchored.within _ _ _ _) fun _ _ _ h same => same ▸ h
  | logical op line left right =>
    refine anchors_bind (anchors_perform anchored trivial fun l s₁ leads₁ hl => ?_)
    split
    · exact anchors_pure leads₁.anchored hl
    · exact anchors_perform leads₁.anchored trivial fun _ _ _ h => h
  | «variable» v =>
    exact anchors_rearranging anchored (.readVariable anchored.within _ _ _)
      fun _ _ _ h same => same ▸ h
  | assign target value =>
    have written := ready.known.right _ List.mem_cons_self
    have ordinary : Ordinary target.name.text := (ready.sound.filed _ written).2.1
    refine anchors_bind (anchors_perform anchored trivial fun v s₁ leads₁ hv => ?_)
    refine anchors_bind (anchors_doing (.writeVariable leads₁.anchored target ordinary hv)
      fun _ s₂ leads₂ _ => ?_)
    exact anchors_pure leads₂.anchored (hv.mono leads₂.store)
  | call callee arguments line =>
    refine anchors_bind (anchors_perform anchored trivial fun f s₁ leads₁ hf => ?_)
    refine anchors_bind (anchors_perform leads₁.anchored trivial fun values s₂ leads₂ hvalues => ?_)
    refine anchors_perform leads₂.anchored (fun value h => ?_) fun _ _ _ h => h
    rcases List.mem_cons.1 h with rfl | h
    · exact Value.Anchored.mono leads₂.store hf
    · exact hvalues value h
  | get object property =>
    refine anchors_bind (anchors_perform anchored trivial fun v s₁ leads₁ _ => ?_)
    split
    · exact Obeys.imp (anchors_getProperty leads₁.anchored _ _ _) fun _ _ h => h.2
    · exact anchors_fail leads₁.anchored
  | set object property value =>
    refine anchors_bind (anchors_perform anchored trivial fun v s₁ leads₁ _ => ?_)
    split
    · refine anchors_bind (anchors_perform leads₁.anchored trivial fun w s₂ leads₂ hw => ?_)
      refine anchors_bind (anchors_rearranging leads₂.anchored
        (.setField leads₂.anchored.within _ _ hw) fun _ s₃ leads₃ _ same => ?_)
      exact anchors_pure leads₃.anchored (hw.mono leads₃.store)
    · exact anchors_fail leads₁.anchored
  | this id line =>
    exact anchors_rearranging anchored (.readVariable anchored.within _ _ _)
      fun _ _ _ h same => same ▸ h
  | super id line method => exact Obeys.imp (anchors_superMethod anchored _ _ _) fun _ _ h => h.2
  | list line elements =>
    refine anchors_bind (anchors_perform anchored trivial fun values s₁ leads₁ hvalues => ?_)
    exact anchors_rearranging leads₁.anchored
      (.newList (harmless _) leads₁.anchored.within hvalues) fun _ _ _ h same => same ▸ h

/-! ## 3. Calls -/

theorem anchors_callScript (anchored : s.Anchored past) {callee : Value} {arguments : List Value}
    (given : Value.AllAnchored past s.scopes (callee :: arguments)) (line : Nat) :
    (callScript callee arguments line).Anchors past fuel
      (fun value s' => value.Anchored past s'.scopes) s := by
  unfold callScript
  split
  · split
    · exact anchors_call anchored given fun _ _ _ h => h
    · exact anchors_fail anchored
  · exact anchors_fail anchored

theorem anchors_applyScript (anchored : s.Anchored past) {callable : Callable}
    {arguments : List Value}
    (given : Value.AllAnchored past s.scopes (.callable callable :: arguments)) (line : Nat) :
    (applyScript callable arguments line).Anchors past fuel
      (fun value s' => value.Anchored past s'.scopes) s := by
  have harguments : Value.AllAnchored past s.scopes arguments :=
    fun value h => given value (List.mem_cons_of_mem _ h)
  have hcallable := given _ List.mem_cons_self
  cases callable with
  | builtin function =>
    exact anchors_rearranging anchored
      (.callFunction (Value.harmless_anchored past _) anchored.within _ _ _)
      fun _ _ _ h same => same ▸ h
  | closure closure =>
    have plain : s.scopes.Plain closure.scope := hcallable
    refine anchors_perform anchored ⟨⟨plain.lt_size, fun receiver found => ?_⟩, harguments⟩
      fun _ _ _ h => h
    cases (plain.get?_eq_none reserved_this).symm.trans found
  | bound method => exact anchors_perform anchored given fun _ _ _ h => h
  | «class» cls =>
    refine anchors_bind (anchors_rearranging anchored
      (.newInstance anchored.within cls hcallable none) fun id s₁ leads₁ hid same => ?_)
    split
    · rename_i initializer found
      obtain ⟨level, above, own⟩ := Class.own?_of_findMethod? found
      refine anchors_bind (Obeys.imp (anchors_bindMethod leads₁.anchored hid above own)
        fun bound s₂ h₂ => ?_)
      obtain ⟨leads₂, hbound⟩ := h₂
      refine anchors_bind (anchors_perform leads₂.anchored (fun value h => ?_)
        fun _ s₃ leads₃ _ => anchors_pure leads₃.anchored trivial)
      rcases List.mem_cons.1 h with rfl | h
      · exact hbound
      · exact (harguments value h).mono (leads₁.trans leads₂).store
    · exact anchors_pure leads₁.anchored trivial

theorem anchors_applyClosureScript (anchored : s.Anchored past) {closure : Closure}
    {arguments : List Value} (grammatical : closure.declaration.Grammatical)
    (called : closure.Called past (fuel + 1) s)
    (harguments : Value.AllAnchored past s.scopes arguments) :
    (applyClosureScript closure arguments).Anchors past fuel
      (fun value s' => value.Anchored past s'.scopes) s := by
  have ordinary : ∀ name ∈ closure.declaration.params, Ordinary name.text := by
    obtain ⟨_, ⟨_, _, _⟩, _, _⟩ := closure
    exact grammatical.1
  refine anchors_bind (anchors_opening anchored called.lt_size (fun receiver found => ?_)
    fun s₁ leads₁ plain₁ _ => ?_)
  · obtain ⟨arguments, line, begun⟩ := called.method receiver found
    exact ⟨closure, ⟨fuel, arguments, line, s, rfl, begun⟩, rfl⟩
  · refine anchors_bind (anchors_doing (.defineAll leads₁.anchored plain₁ ordinary
      fun value h => (harguments value h).mono leads₁.store) fun _ s₂ leads₂ plain₂ => ?_)
    refine anchors_bind (anchors_performIn leads₂.anchored plain₂ trivial
      fun completion s₃ leads₃ hcompletion => ?_)
    refine anchors_rearranging leads₃.anchored (.callResult leads₃.anchored.within closure ?_)
      fun _ _ _ h same => same ▸ h
    cases completion with
    | normal => trivial
    | returned value => exact hcompletion

/-! ## 4. Statements -/

/-- The methods of a class keep a new scope that binds `super` to the superclass, or else the
current scope. -/
theorem anchors_methodScope (anchored : s.Anchored past) {superclass : Option Class}
    (hsuper : ∀ cls ∈ superclass, cls.Anchored past s.scopes) (methods : List FunDecl) :
    (methodScope methods superclass).Anchors past fuel
      (fun scope s' => s.Retains past s' ∧ scope < s'.scopes.all.size ∧
        s'.scopes.get? scope "this" = none ∧
        (s'.scopes.get? scope "super" = superclass.map fun cls => .callable (.class cls)) ∧
        (superclass ≠ none → past.Opened scope (.superclass methods))) s := by
  cases superclass with
  | none =>
    have plain := anchored.plain
    exact anchors_seeing anchored ⟨.refl anchored, plain.lt_size,
      plain.get?_eq_none reserved_this, plain.get?_eq_none reserved_super, fun h => absurd rfl h⟩
  | some superclass =>
    intro opens
    have plain := anchored.plain
    let value : Value := .callable (.class superclass)
    have retains := Store.Retains.opened s.store s.scope "super" value
    have store : (s.store.opened s.scope "super" value).Anchored past :=
      anchored.store.opened plain.lt_size (plain.get?_eq_none reserved_this) (hsuper superclass rfl)
        fun h => absurd h (by decide)
    have this : (s.store.opened s.scope "super" value).scopes.get? s.scopes.all.size "this" =
        none := by
      rw [Store.get?_opened, if_neg fun h => absurd h.2 (by decide)]
      exact Scopes.get?_size s.scopes "this"
    have super : (s.store.opened s.scope "super" value).scopes.get? s.scopes.all.size "super" =
        some value := by
      rw [Store.get?_opened]
      exact if_pos ⟨rfl, rfl⟩
    have leads := anchored.setScopes store retains s.stamp
    refine ⟨leads, leads, ?_, this, super, fun _ => ⟨s, opens, rfl⟩⟩
    exact Scopes.lt_size_of_get? super

theorem anchors_declareClass (anchored : s.Anchored past) {name : Name}
    (ordinary : Ordinary name.text) {superclass : Option Class} {methods : List FunDecl}
    (hsuper : ∀ cls ∈ superclass, cls.Anchored past s.scopes ∧
      ∀ info, info.name = name.text → past.Derives info cls methods) :
    (declareClass name superclass methods).Anchors past fuel (fun _ s' => s.Retains past s') s := by
  refine anchors_bind (anchors_doing (.define anchored ordinary trivial) fun _ s₁ leads₁ _ => ?_)
  refine anchors_bind (Obeys.imp (anchors_methodScope leads₁.anchored
    (fun cls h => (hsuper cls h).1.mono leads₁.store) methods) fun scope s₂ h₂ => ?_)
  obtain ⟨leads₂, lt, this, super, opened⟩ := h₂
  refine anchors_bind (anchors_rearranging leads₂.anchored
    (.of_same leads₂.anchored.within rfl rfl rfl) fun stamp s₃ leads₃ _ same₃ => ?_)
  obtain ⟨closures, next, made, inScope⟩ := Eval.newMethods_eq_ok scope methods .empty s₃
  have makes : (Eval.newMethods scope methods .empty).Anchors past
      (fun found s' => found = closures ∧ s'.scopes = s₃.scopes) s₃ := by
    unfold Eval.Anchors
    rw [made]
    exact ⟨.of_same leads₃.anchored rfl rfl rfl, rfl, rfl⟩
  refine anchors_bind (anchors_doing makes fun found s₄ leads₄ h₄ => ?_)
  obtain ⟨rfl, same₄⟩ := h₄
  have declared : ∀ other closure, found.get? other = some closure →
      closure.scope = scope ∧ closure.declaration ∈ methods := by
    intro other closure own
    rcases inScope other closure own with given | known
    · cases given
    · exact known
  have leads₁₄ := leads₁.trans (leads₂.trans (leads₃.trans leads₄))
  refine anchors_doing (.define leads₄.anchored ordinary ?_) fun _ s₅ leads₅ _ =>
    leads₁₄.trans leads₅
  cases superclass with
  | none =>
    intro level above other closure own
    obtain rfl := List.mem_singleton.1 above
    obtain ⟨rfl, -⟩ := declared other closure own
    rw [same₄, same₃]
    exact ⟨lt, this, super⟩
  | some superclass =>
    intro level above other closure own
    rcases List.mem_cons.1 above with rfl | above
    · obtain ⟨rfl, hmem⟩ := declared other closure own
      rw [same₄, same₃]
      exact ⟨lt, this, super, methods, hmem, opened nofun, (hsuper superclass rfl).2 _ rfl⟩
    · exact (hsuper superclass rfl).1.mono leads₁₄.store level above other closure own

/-- The iterator of a loop is anchored, whatever has given it. -/
theorem anchors_forEach (anchored : s.Anchored past) (line : Nat) (name : Name) (iterable : Expr)
    (body : Stmt) :
    (execScript (.forEach line name iterable body)).Anchors past fuel
      (fun completion s' => completion.Anchored past s'.scopes) s := by
  refine anchors_bind (anchors_perform anchored trivial fun v s₁ leads₁ hv => ?_)
  split
  · refine anchors_bind (anchors_perform leads₁.anchored (fun value h => ?_)
      fun iterator s₂ leads₂ hiterator => ?_)
    · obtain rfl := List.mem_singleton.1 h
      trivial
    · refine anchors_bind (anchors_rearranging leads₂.anchored
        (.cursorFor leads₂.anchored.within hiterator) fun cursor s₃ leads₃ hcursor same => ?_)
      refine anchors_perform leads₃.anchored ?_ fun _ _ _ h => h
      cases cursor with
      | direct id => trivial
      | protocol value =>
        have found := hcursor value rfl
        rw [← same] at found
        exact found
  · exact anchors_fail leads₁.anchored

/-- A function is made in the current scope, which is not that of a receiver. -/
theorem anchors_funDecl {declaration : FunDecl}
    (grammatical : (Stmt.funDecl declaration).Grammatical) (anchored : s.Anchored past) :
    (execScript (.funDecl declaration)).Anchors past fuel
      (fun completion s' => completion.Anchored past s'.scopes) s := by
  have makes : (do Eval.newClosure declaration (← get).scope false : Eval Closure).Anchors past
      (fun closure s' => closure.scope = s'.scope) s :=
    ⟨.of_same anchored rfl rfl rfl, rfl⟩
  refine anchors_bind (anchors_doing makes fun closure s₁ leads₁ hscope => ?_)
  have plain : s₁.scopes.Plain closure.scope := hscope ▸ leads₁.anchored.plain
  exact anchors_bind (anchors_doing (.define leads₁.anchored grammatical.1 plain)
    fun _ s₂ leads₂ _ => anchors_pure leads₂.anchored trivial)

/-- A class with a superclass remembers the declaration that has brought it up. -/
theorem anchors_classDecl {name : Name} {superclass : Option Variable} {methods : List FunDecl}
    (grammatical : (Stmt.classDecl name superclass methods).Grammatical)
    (anchored : s.Anchored past)
    (begun : past.moments
      (.begins (fuel + 1) (.exec (.classDecl name superclass methods)) s)) :
    (execScript (.classDecl name superclass methods)).Anchors past fuel
      (fun completion s' => completion.Anchored past s'.scopes) s := by
  cases superclass with
  | none =>
    exact anchors_bind (anchors_pure anchored (anchors_bind (Obeys.imp
      (anchors_declareClass anchored grammatical.1 (fun _ h => by cases h))
      fun _ s₁ leads₁ => anchors_pure leads₁.anchored trivial)))
  | some parent =>
    refine anchors_bind (anchors_performing anchored trivial fun v s₁ ran leads₁ hv => ?_)
    have finds : (Eval.superclassOf parent.name v).Anchors past
        (fun cls s' => v = .callable (.class cls) ∧ cls.Anchored past s'.scopes) s₁ := by
      unfold Eval.superclassOf
      split
      · exact ⟨.refl leads₁.anchored, rfl, hv⟩
      · exact State.Retains.refl leads₁.anchored
    refine anchors_bind (anchors_doing finds fun cls s₂ leads₂ hcls => ?_)
    obtain ⟨rfl, hcls⟩ := hcls
    refine anchors_bind (anchors_pure leads₂.anchored (anchors_bind (Obeys.imp
      (anchors_declareClass leads₂.anchored grammatical.1 fun found h => ?_)
      fun _ s₃ leads₃ => anchors_pure leads₃.anchored trivial)))
    cases h
    exact ⟨hcls, fun info named => ⟨fuel, name, parent, s, s₁, begun, ran, named⟩⟩

theorem anchors_execScript {st : Stmt} (grammatical : st.Grammatical) (anchored : s.Anchored past)
    (begun : past.moments (.begins (fuel + 1) (.exec st) s)) :
    (execScript st).Anchors past fuel
      (fun completion s' => completion.Anchored past s'.scopes) s := by
  cases st with
  | print line value =>
    refine anchors_bind (anchors_perform anchored trivial fun v s₁ leads₁ _ => ?_)
    exact anchors_bind (anchors_rearranging leads₁.anchored
      (.printValue leads₁.anchored.within _ _) fun _ s₂ leads₂ _ _ =>
        anchors_pure leads₂.anchored trivial)
  | expression value =>
    exact anchors_bind (anchors_perform anchored trivial fun v s₁ leads₁ _ =>
      anchors_pure leads₁.anchored trivial)
  | varDecl name initializer =>
    refine anchors_bind (anchors_perform anchored trivial fun v s₁ leads₁ hv => ?_)
    exact anchors_bind (anchors_doing (.define leads₁.anchored grammatical.1 hv)
      fun _ s₂ leads₂ _ => anchors_pure leads₂.anchored trivial)
  | block body =>
    refine anchors_bind (anchors_openScope anchored fun s₁ leads₁ plain₁ _ => ?_)
    exact anchors_performIn leads₁.anchored plain₁ trivial fun _ _ _ h => h
  | ifElse condition thenBranch elseBranch =>
    refine anchors_bind (anchors_perform anchored trivial fun v s₁ leads₁ _ => ?_)
    split
    · exact anchors_perform leads₁.anchored trivial fun _ _ _ h => h
    · split
      · exact anchors_perform leads₁.anchored trivial fun _ _ _ h => h
      · exact anchors_pure leads₁.anchored trivial
  | whileLoop condition body => exact anchors_perform anchored trivial fun _ _ _ h => h
  | forEach line name iterable body => exact anchors_forEach anchored line name iterable body
  | funDecl declaration => exact anchors_funDecl grammatical anchored
  | ret line value =>
    exact anchors_bind (anchors_perform anchored trivial fun v s₁ leads₁ hv =>
      anchors_pure leads₁.anchored hv)
  | classDecl name superclass methods => exact anchors_classDecl grammatical anchored begun

/-! ## 5. Loops, bodies and all tasks -/

theorem anchors_forEachScript (anchored : s.Anchored past) {cursor : Cursor}
    (hcursor : cursor.Anchored past s.scopes) (line : Nat) {name : Name}
    (ordinary : Ordinary name.text) (body : Stmt) :
    (forEachScript cursor line name body).Anchors past fuel
      (fun completion s' => completion.Anchored past s'.scopes) s := by
  refine anchors_bind (anchors_perform anchored hcursor fun more s₁ leads₁ _ => ?_)
  split
  · refine anchors_bind (anchors_openScope leads₁.anchored fun s₂ leads₂ plain₂ _ => ?_)
    have leads₁₂ := leads₁.trans leads₂
    refine anchors_bind (anchors_perform leads₂.anchored
      (Cursor.Anchored.mono hcursor leads₁₂.store) fun value s₃ leads₃ hvalue => ?_)
    refine anchors_bind (anchors_doing (.defineIn leads₃.anchored (leads₃.store.plain plain₂)
      ordinary hvalue) fun _ s₄ leads₄ plain₄ => ?_)
    refine anchors_bind (anchors_performIn leads₄.anchored plain₄ trivial
      fun completion s₅ leads₅ hcompletion => ?_)
    have leads₁₅ := leads₁₂.trans (leads₃.trans (leads₄.trans leads₅))
    cases completion with
    | returned value => exact anchors_pure leads₅.anchored hcompletion
    | normal =>
      refine anchors_bind (anchors_perform leads₅.anchored
        (Cursor.Anchored.mono hcursor leads₁₅.store) fun _ s₆ leads₆ _ => ?_)
      exact anchors_perform leads₆.anchored
        (Cursor.Anchored.mono hcursor (leads₁₅.trans leads₆).store) fun _ _ _ h => h
  · exact anchors_pure leads₁.anchored trivial

/-- A declared method that is called has been bound, and its call is the activation in which the
receiver is known. -/
theorem anchors_applyMethod {method : BoundMethod} {arguments : List Value} {line : Nat}
    (anchored : s.Anchored past)
    (given : (Task.applyMethod method arguments line).Anchored past (fuel + 1) s)
    (begun : past.moments (.begins (fuel + 1) (.applyMethod method arguments line) s)) :
    (Task.applyMethod method arguments line).script.Anchors past fuel
      (fun answer s' => (Task.applyMethod method arguments line).Answers past s'.scopes answer)
      s := by
  have harguments : Value.AllAnchored past s.scopes arguments :=
    fun value h => given value (List.mem_cons_of_mem _ h)
  have hmethod := given _ List.mem_cons_self
  obtain ⟨receiver, method⟩ := method
  cases method with
  | builtin method =>
    exact anchors_rearranging anchored
      (.callMethod (Value.harmless_anchored past _) anchored.within _ _ harguments _)
      fun _ _ _ h same => same ▸ h
  | declared closure =>
    obtain ⟨this, -⟩ := hmethod
    refine anchors_perform anchored ⟨⟨Scopes.lt_size_of_get? this, fun other found => ?_⟩,
      harguments⟩ fun _ _ _ h => h
    cases this.symm.trans found
    exact ⟨arguments, line, begun⟩

/-- What is called is what the property of the receiver is. -/
theorem anchors_invoke {receiver : Value} {name : String} {arguments : List Value} {line : Nat}
    (anchored : s.Anchored past)
    (given : (Task.invoke receiver name arguments line).Anchored past (fuel + 1) s) :
    (Task.invoke receiver name arguments line).script.Anchors past fuel
      (fun answer s' => (Task.invoke receiver name arguments line).Answers past s'.scopes answer)
      s := by
  cases receiver with
  | inst id =>
    refine anchors_bind (Obeys.imp (anchors_getProperty anchored id name line)
      fun value s₁ h₁ => ?_)
    obtain ⟨leads₁, hvalue⟩ := h₁
    refine anchors_perform leads₁.anchored (fun found h => ?_) fun _ _ _ h => h
    rcases List.mem_cons.1 h with rfl | h
    · exact hvalue
    · exact (given found (List.mem_cons_of_mem _ h)).mono leads₁.store
  | _ => exact anchors_fail anchored

/-- A loop goes on from whatever state a turn has left. -/
theorem anchors_whileLoop (anchored : s.Anchored past) (condition : Expr) (body : Stmt) :
    (Task.whileLoop condition body).script.Anchors past fuel
      (fun answer s' => (Task.whileLoop condition body).Answers past s'.scopes answer) s := by
  refine anchors_bind (anchors_perform anchored trivial fun v s₁ leads₁ _ => ?_)
  split
  · refine anchors_bind (anchors_perform leads₁.anchored trivial
      fun completion s₂ leads₂ hcompletion => ?_)
    cases completion with
    | normal => exact anchors_perform leads₂.anchored trivial fun _ _ _ h => h
    | returned value => exact anchors_pure leads₂.anchored hcompletion
  · exact anchors_pure leads₁.anchored trivial

/-- **Every script keeps functions and methods anchored.** -/
theorem anchors_script {task : Task} (expects : task.Expects earlier stack s)
    (anchored : s.Anchored past) (given : task.Anchored past (fuel + 1) s)
    (begun : past.moments (.begins (fuel + 1) task s)) :
    task.script.Anchors past fuel (fun answer s' => task.Answers past s'.scopes answer) s := by
  cases task with
  | eval e => exact anchors_evalScript expects anchored
  | evalAll es =>
    cases es with
    | nil => exact anchors_pure anchored fun _ h => by cases h
    | cons e es =>
      refine anchors_bind (anchors_perform anchored trivial fun value s₁ leads₁ hvalue => ?_)
      refine anchors_bind (anchors_perform leads₁.anchored trivial
        fun values s₂ leads₂ hvalues => anchors_pure leads₂.anchored fun found h => ?_)
      rcases List.mem_cons.1 h with rfl | h
      · exact Value.Anchored.mono leads₂.store hvalue
      · exact hvalues found h
  | evalOptional e =>
    cases e with
    | none => exact anchors_pure anchored trivial
    | some e => exact anchors_perform anchored trivial fun _ _ _ h => h
  | call callee arguments line => exact anchors_callScript anchored given line
  | apply callable arguments line => exact anchors_applyScript anchored given line
  | applyMethod method arguments line => exact anchors_applyMethod anchored given begun
  | applyClosure closure arguments =>
    obtain ⟨_, -, grammatical, -⟩ := expects.2.1
    exact anchors_applyClosureScript anchored grammatical given.1 given.2
  | invoke receiver name arguments line => exact anchors_invoke anchored given
  | exec st => exact anchors_execScript expects.2 anchored begun
  | execAll body =>
    cases body with
    | nil => exact anchors_pure anchored trivial
    | cons st rest =>
      refine anchors_bind (anchors_perform anchored trivial
        fun completion s₁ leads₁ hcompletion => ?_)
      cases completion with
      | normal => exact anchors_perform leads₁.anchored trivial fun _ _ _ h => h
      | returned value => exact anchors_pure leads₁.anchored hcompletion
  | whileLoop condition body => exact anchors_whileLoop anchored condition body
  | forEach cursor line name body =>
    have declared := expects.1.known _ List.mem_cons_self
    have ordinary : Ordinary name.text := (expects.1.sound.filed _ declared).2.1
    exact anchors_forEachScript anchored given line ordinary body
  | cursorHasItems cursor line =>
    cases cursor with
    | direct id =>
      exact anchors_rearranging anchored
        (.of_looks (Eval.Looks.plain.iteratorHasItems id line) anchored.within)
        fun _ _ _ _ _ => trivial
    | protocol iterator =>
      refine anchors_bind (anchors_perform anchored (fun value h => ?_) fun _ s₁ leads₁ _ =>
        anchors_pure leads₁.anchored trivial)
      obtain rfl := List.mem_singleton.1 h
      exact given
  | cursorCurrent cursor line =>
    cases cursor with
    | direct id =>
      exact anchors_rearranging anchored
        (.iteratorCurrent (Value.harmless_anchored past _) anchored.within id line)
        fun _ _ _ h same => same ▸ h
    | protocol iterator =>
      refine anchors_perform anchored (fun value h => ?_) fun _ _ _ h => h
      obtain rfl := List.mem_singleton.1 h
      exact given
  | cursorAdvance cursor line =>
    cases cursor with
    | direct id =>
      exact anchors_rearranging anchored (.iteratorAdvance anchored.within id line)
        fun _ _ _ _ _ => trivial
    | protocol iterator =>
      refine anchors_bind (anchors_perform anchored (fun value h => ?_) fun _ s₁ leads₁ _ =>
        anchors_pure leads₁.anchored trivial)
      obtain rfl := List.mem_singleton.1 h
      exact given

end Task

/-- The regime is kept to in every course of events in which tasks begin where their code
belongs. -/
theorem anchoring_sound {past : Past}
    (closed : ∀ m m', past.moments m → m.Next m' → past.moments m')
    (expects : ∀ fuel task s, past.moments (.begins fuel task s) →
      ∃ earlier stack, task.Expects earlier stack s) :
    (anchoring past).Sound past.moments where
  closed := closed
  trans _ _ _ := State.Retains.trans
  here _ _ _ h := .refl h.1
  stays _ _ h := .refl h.anchored
  leave frame s inner s' start entered h := by
    cases frame with
    | same =>
      cases entered
      exact ⟨h, .refl h.anchored⟩
    | scope id =>
      cases entered
      have anchored : State.Anchored past { s' with scope := s.scope } :=
        ⟨h.anchored.store, h.store.plain start.anchored.plain⟩
      exact ⟨⟨anchored, h.store⟩, ⟨anchored, .refl _⟩⟩
    | call line =>
      simp only [Frame.enter] at entered
      split at entered
      · cases entered
      · cases entered
        have anchored : State.Anchored past { s' with depth := s'.depth - 1 } :=
          ⟨h.anchored.store, h.anchored.plain⟩
        exact ⟨⟨anchored, h.store⟩, ⟨anchored, .refl _⟩⟩
  obeys fuel task s begun h := by
    obtain ⟨earlier, stack, expects⟩ := expects (fuel + 1) task s begun
    exact Task.anchors_script expects h.1 h.2 begun

end Lox
