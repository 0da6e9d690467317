/-
# Every construct knows where its functions and classes come from

One lemma for each kind of task, with one case for each construct.  A task makes functions where
their declarations are executed, makes scopes in scopes that are there, and binds names in scopes
around the current one, which are not in the fence, or in scopes that it has made itself.
`tracing_sound` puts the lemmas together.
-/
import Lox.Proofs.Scoping.Tracing

namespace Lox

/-- What is found on a class is one of the methods in it. -/
theorem Value.Traced.method {past : Past} {fence : Fence} {scopes : Scopes Value} {cls : Class}
    (h : (Value.callable (.class cls)).Traced past fence scopes) {name : String} {closure : Closure}
    (found : cls.findMethod? name = some (.declared closure)) :
    scopes.Clear fence.closed closure.scope ∧
      ∃ level, past.Makes scopes level ∧ level.methods.get? name = some closure := by
  obtain ⟨level, above, own⟩ := Class.own?_of_findMethod? found
  have own := Class.own?_eq_declared.1 own
  exact ⟨(h.closures closure (.method above own)).clear, level, h.levels cls rfl level above, own⟩

namespace Task

open Script Value

variable {past : Past} {fence : Fence} {history : Moment → Prop} {fuel : Nat} {s : State}

/-! ## 1. Methods and properties -/

/-- The scope for the receiver is a new one, so it is none of those in the fence. -/
theorem traces_bindMethod (happened : ∀ m, history m → past.moments m)
    (traced : s.Traced past fence) (receiver : InstanceId) {cls : Class}
    (given : (callable (.class cls)).Traced past fence s.scopes) {name : String} {method : Method}
    (found : cls.findMethod? name = some method) :
    (bindMethod receiver method).Traces past fence history fuel
      (fun bound s' => s.Traces past fence s' ∧
        AllTraced past fence s'.scopes [.callable (.bound bound)]) s := by
  cases method with
  | builtin method =>
    exact traces_pure traced ⟨.refl traced, allTraced_plain rfl⟩
  | declared closure =>
    obtain ⟨kept, level, makes, own⟩ := given.method found
    refine traces_bind (traces_opening traced kept.lt_size
      fun s₁ opened traces₁ _ link clear => ?_)
    have clear := clear fence.closed (fun _ => .inl) kept
    have unlike : ∀ n, fence.All n → s.scopes.all.size ≠ n :=
      fun n hn => Nat.ne_of_gt (traced.there n hn).2
    refine traces_bind (traces_doing (.defineIn traces₁.traced unlike "this"
      (traced_of_making?_eq_none rfl)) fun _ s₂ traces₂ _ _ => ?_)
    refine traces_bind (traces_rearranging traces₂.traced
      (.of_same traces₂.traced.within rfl rfl rfl) fun stamp s₃ traces₃ _ _ => ?_)
    have extended := traces₂.extended.trans traces₃.extended
    have bound : Closure.Traced past fence s₃.scopes
        { closure with stamp := stamp, scope := s.scopes.all.size } :=
      ⟨clear.mono extended, .bound (makes.mono (traces₁.extended.trans extended)) own rfl
        (extended.liesIn link) ⟨s, happened _ opened, rfl⟩⟩
    exact traces_pure traces₃.traced ⟨traces₁.trans (traces₂.trans traces₃),
      allTraced_singleton (traced_bound bound)⟩

/-- A method of the class of an instance, or of one above it, as a value. -/
theorem traces_bound (happened : ∀ m, history m → past.moments m) (traced : s.Traced past fence)
    (receiver : InstanceId) {cls : Class}
    (given : (callable (.class cls)).Traced past fence s.scopes) {name : String} {method : Method}
    (found : cls.findMethod? name = some method) :
    (do return .callable (.bound (← bindMethod receiver method)) : Script Value).Traces past fence
      history fuel
      (fun value s' => s.Traces past fence s' ∧ AllTraced past fence s'.scopes [value]) s :=
  traces_bind (Obeys.imp (traces_bindMethod happened traced receiver given found)
    fun _ _ h => traces_pure h.1.traced h)

theorem traces_getProperty (happened : ∀ m, history m → past.moments m)
    (traced : s.Traced past fence) (id : InstanceId) (name : String)
    (line : Nat) :
    (getProperty id name line).Traces past fence history fuel
      (fun value s' => s.Traces past fence s' ∧ AllTraced past fence s'.scopes [value]) s := by
  refine traces_bind (traces_seeing traced ?_)
  split
  · rename_i value found
    exact traces_pure traced ⟨.refl traced, allTraced_singleton (traced.within _ (.field found))⟩
  · split
    · rename_i method found
      obtain ⟨cls, hcls, hmethod⟩ := Option.bind_eq_some_iff.1 found
      exact traces_bound happened traced id (traced.within _ (.class hcls)) hmethod
    · exact traces_fail traced

theorem traces_superMethod (happened : ∀ m, history m → past.moments m)
    (traced : s.Traced past fence) (node : Id) (line : Nat)
    (method : Name) :
    (superMethod node line method).Traces past fence history fuel
      (fun value s' => AllTraced past fence s'.scopes [value]) s := by
  refine traces_bind (traces_seeing traced ?_)
  dsimp only [id]
  split
  · split
    · rename_i superclass receiver hsuper _
      obtain ⟨scope, -, bound⟩ := Option.bind_eq_some_iff.1 hsuper
      split
      · rename_i found hfound
        exact Obeys.imp (traces_bound happened traced receiver (traced.within _ (.bound bound)) hfound)
          fun _ _ h => h.2
      · exact traces_fail traced
    · exact traces_fail traced
    · exact traces_fail traced
    · exact traces_fail traced
  · exact traces_fail traced

/-! ## 2. Expressions -/

theorem traces_evalScript (happened : ∀ m, history m → past.moments m)
    (traced : s.Traced past fence) (e : Expr) :
    (evalScript e).Traces past fence history fuel
      (fun value s' => AllTraced past fence s'.scopes [value]) s := by
  have harmless : ∀ s : State, Harmless (Value.Traced past fence s.scopes) :=
    fun s => harmless_traced past fence s.scopes
  cases e with
  | literal value =>
    exact traces_pure traced (allTraced_plain (by cases value <;> rfl))
  | grouping inner => exact traces_perform traced rfl allTraced_nil fun _ _ _ told => told
  | unary op line operand =>
    refine traces_bind (traces_perform traced rfl allTraced_nil fun v s₁ traces₁ _ => ?_)
    exact traces_answering traces₁.traced (.unary (harmless _) traces₁.traced.within _ _ _)
  | binary op line left right =>
    refine traces_bind (traces_perform traced rfl allTraced_nil fun l s₁ traces₁ _ => ?_)
    refine traces_bind (traces_perform traces₁.traced rfl allTraced_nil fun r s₂ traces₂ _ => ?_)
    exact traces_answering traces₂.traced (.binary (harmless _) traces₂.traced.within _ _ _ _)
  | logical op line left right =>
    refine traces_bind (traces_perform traced rfl allTraced_nil fun l s₁ traces₁ told => ?_)
    split
    · exact traces_pure traces₁.traced told
    · exact traces_perform traces₁.traced rfl allTraced_nil fun _ _ _ told => told
  | «variable» v => exact traces_answering traced (.readVariable traced.within _ _ _)
  | assign target value =>
    refine traces_bind (traces_perform traced rfl allTraced_nil fun v s₁ traces₁ told => ?_)
    exact traces_bind (traces_doing (.writeVariable traces₁.traced target (traced_of_told told))
      fun _ s₂ traces₂ _ _ => traces_pure traces₂.traced (told.mono traces₂.extended))
  | call callee arguments line =>
    refine traces_bind (traces_perform traced rfl allTraced_nil fun f s₁ traces₁ told => ?_)
    refine traces_bind (traces_perform traces₁.traced rfl allTraced_nil
      fun values s₂ traces₂ told' => ?_)
    have given : AllTraced past fence s₂.scopes (Task.call f values line).values :=
      allTraced_cons ((traced_of_told told).mono traces₂.extended) told'
    exact traces_perform traces₂.traced rfl given fun _ _ _ told => told
  | get object property =>
    refine traces_bind (traces_perform traced rfl allTraced_nil fun v s₁ traces₁ _ => ?_)
    split
    · exact Obeys.imp (traces_getProperty happened traces₁.traced _ _ _) fun _ _ h => h.2
    · exact traces_fail traces₁.traced
  | set object property value =>
    refine traces_bind (traces_perform traced rfl allTraced_nil fun v s₁ traces₁ _ => ?_)
    split
    · refine traces_bind (traces_perform traces₁.traced rfl allTraced_nil fun w s₂ traces₂ told => ?_)
      exact traces_bind (traces_rearranging traces₂.traced
        (.setField traces₂.traced.within _ _ (traced_of_told told))
        fun _ s₃ traces₃ _ _ => traces_pure traces₃.traced (told.mono traces₃.extended))
    · exact traces_fail traces₁.traced
  | this id line => exact traces_answering traced (.readVariable traced.within _ _ _)
  | super id line method => exact traces_superMethod happened traced _ _ _
  | list line elements =>
    refine traces_bind (traces_perform traced rfl allTraced_nil fun values s₁ traces₁ told => ?_)
    exact traces_answering traces₁.traced (.newList (harmless _) traces₁.traced.within told)

/-! ## 3. Calls -/

theorem traces_callScript (traced : s.Traced past fence) {callee : Value}
    {arguments : List Value} (given : AllTraced past fence s.scopes (callee :: arguments)) (line : Nat) :
    (callScript callee arguments line).Traces past fence history fuel
      (fun value s' => AllTraced past fence s'.scopes [value]) s := by
  unfold callScript
  split
  · split
    · exact traces_call traced rfl given fun _ _ _ told => told
    · exact traces_fail traced
  · exact traces_fail traced

theorem traces_applyScript (happened : ∀ m, history m → past.moments m)
    (traced : s.Traced past fence) {callable : Callable} {arguments : List Value}
    (given : AllTraced past fence s.scopes (.callable callable :: arguments))
    (line : Nat) :
    (applyScript callable arguments line).Traces past fence history fuel
      (fun value s' => AllTraced past fence s'.scopes [value]) s := by
  obtain ⟨hcallable, harguments⟩ := List.forall_mem_cons.1 given
  cases callable with
  | builtin function =>
    exact traces_answering traced
      (.callFunction (harmless_traced past fence _) traced.within _ _ _)
  | closure closure =>
    refine traces_performing traced harguments (fun _ _ same => ?_) fun _ _ _ _ _ told => told
    cases same
    exact hcallable.closures closure (.closure closure)
  | bound method => exact traces_perform traced rfl given fun _ _ _ told => told
  | «class» cls =>
    refine traces_bind (traces_rearranging traced
      (.newInstance traced.within cls hcallable none) fun id s₁ traces₁ _ same => ?_)
    split
    · rename_i initializer found
      refine traces_bind (Obeys.imp (traces_bindMethod happened traces₁.traced id
        (hcallable.mono traces₁.extended) found) fun bound s₂ h₂ => ?_)
      obtain ⟨traces₂, own⟩ := h₂
      have extended := traces₁.extended.trans traces₂.extended
      have given : AllTraced past fence s₂.scopes (Task.applyMethod bound arguments line).values :=
        allTraced_cons (traced_of_told own) (AllTraced.mono harguments extended)
      exact traces_bind (traces_perform traces₂.traced rfl given
        fun _ s₃ traces₃ _ => traces_pure traces₃.traced (allTraced_plain rfl))
    · exact traces_pure traces₁.traced (allTraced_plain rfl)

/-- The scope for a call lies in the one that the closure keeps, so the body is run in a clear scope
if that one is clear. -/
theorem traces_applyClosureScript (traced : s.Traced past fence) {closure : Closure}
    {arguments : List Value} (kept : s.scopes.Clear fence.All closure.scope)
    (harguments : AllTraced past fence s.scopes arguments) :
    (applyClosureScript closure arguments).Traces past fence history fuel
      (fun value s' => AllTraced past fence s'.scopes [value]) s := by
  refine traces_bind (traces_opening traced kept.lt_size fun s₁ _ traces₁ _ _ clear => ?_)
  have clear₁ := clear fence.All (fun _ hn => hn) kept
  refine traces_bind (traces_doing (.defineAll traces₁.traced (fun _ hn => clear₁.ne hn)
    closure.declaration.params (harguments.mono traces₁.extended)) fun _ s₂ traces₂ _ _ => ?_)
  have clear₂ := clear₁.mono traces₂.extended
  refine traces_bind (traces_performIn traces₂.traced rfl clear₂ allTraced_nil
    fun completion s₃ traces₃ told => ?_)
  refine traces_answering traces₃.traced (.callResult traces₃.traced.within closure ?_)
  cases completion with
  | normal => exact traced_of_making?_eq_none rfl
  | returned value => exact traced_of_told told

/-! ## 4. Statements -/

/-- The methods of a class keep the current scope or, if there is a superclass, one in it. -/
theorem traces_methodScope (happened : ∀ m, history m → past.moments m)
    (traced : s.Traced past fence) {superclass : Option Class}
    (hsuper : ∀ cls ∈ superclass, (Value.callable (.class cls)).Traced past fence s.scopes)
    (methods : List FunDecl) :
    (methodScope methods superclass).Traces past fence history fuel
      (fun scope s' => s.Traces past fence s' ∧ s'.scopes.Clear fence.All scope ∧
        (superclass = none → scope = s.scope) ∧
        (superclass ≠ none → past.Opened scope (.superclass methods) ∧
          s'.scopes.LiesIn scope s.scope)) s := by
  cases superclass with
  | none =>
    exact traces_seeing traced ⟨.refl traced, traced.clear, fun _ => rfl, absurd rfl⟩
  | some superclass =>
    refine traces_bind (traces_openScope traced fun s₁ opened traces₁ _ link clear₁ => ?_)
    refine traces_bind (traces_doing (.defineIn traces₁.traced (fun _ hn => clear₁.ne hn) "super"
      ((hsuper superclass rfl).mono traces₁.extended)) fun _ s₂ traces₂ _ _ => ?_)
    have link₂ := traces₂.extended.liesIn link
    exact traces_pure traces₂.traced ⟨traces₁.trans traces₂, clear₁.mono traces₂.extended,
      fun none => absurd none (Option.some_ne_none _),
      fun _ => ⟨⟨s, happened _ opened, rfl⟩, link₂⟩⟩

theorem traces_declareClass (happened : ∀ m, history m → past.moments m)
    (traced : s.Traced past fence) (name : Name) {superclass : Option Class}
    (hsuper : ∀ cls ∈ superclass, (Value.callable (.class cls)).Traced past fence s.scopes)
    {methods : List FunDecl}
    (makes : ∀ scopes scope info, (superclass = none → scope = s.scope) →
      (superclass ≠ none → past.Opened scope (.superclass methods) ∧ scopes.LiesIn scope s.scope) →
      info.MadeFrom name methods scope →
      past.Makes scopes (superclass.elim (.base info) (.derived info))) :
    (declareClass name superclass methods).Traces past fence history fuel
      (fun _ s' => s.Traces past fence s') s := by
  refine traces_bind (traces_doing (.define traced name.text (traced_of_making?_eq_none rfl))
    fun _ s₁ traces₁ place₁ _ => ?_)
  have above := fun cls h => (hsuper cls h).mono traces₁.extended
  refine traces_bind (Obeys.imp (traces_methodScope happened traces₁.traced above methods)
    fun scope s₂ h₂ => ?_)
  obtain ⟨traces₂, clear₂, base, derived⟩ := h₂
  rw [place₁] at base derived
  refine traces_bind (traces_rearranging traces₂.traced
    (.of_same traces₂.traced.within rfl rfl rfl) fun stamp s₃ traces₃ _ _ => ?_)
  obtain ⟨closures, next, made, known⟩ := Eval.newMethods_last scope methods .empty s₃
  have found : Eval.Traces past fence (Eval.newMethods scope methods .empty)
      (fun found _ => found = closures) s₃ := by
    unfold Eval.Traces
    rw [made]
    exact ⟨traces₃.traced.of_same rfl rfl rfl, rfl, rfl⟩
  refine traces_bind (traces_doing found fun _ s₄ traces₄ _ same => ?_)
  cases same
  have traces₂₄ := traces₂.trans (traces₃.trans traces₄)
  have extended := traces₃.extended.trans traces₄.extended
  let info : ClassInfo := ⟨stamp, name.text, closures⟩
  have kept : ∀ method closure, closures.get? method = some closure →
      closure.scope = scope ∧ closure.isInitializer = closure.declaration.isInitializer :=
    fun method closure own => ((known method).2 closure own).resolve_left (Option.some_ne_none _ ·.symm)
  have makes := makes s₄.scopes scope info base
    (fun h => ⟨(derived h).1, extended.liesIn (derived h).2⟩)
    ⟨rfl, fun method => (known method).1.trans Option.or_none, kept⟩
  have clear : ∀ method closure, closures.get? method = some closure →
      s₄.scopes.Clear fence.closed closure.scope := by
    intro method closure own
    rw [(kept method closure own).1]
    exact (clear₂.mono extended).of_imp fun _ => .inl
  refine traces_doing (.define traces₄.traced name.text ?_) fun _ s₅ traces₅ _ _ =>
    traces₁.trans (traces₂₄.trans traces₅)
  cases superclass with
  | none =>
    exact traced_class makes clear fun level above => .inl (List.mem_singleton.1 above)
  | some superclass =>
    refine traced_class makes clear fun level above => ?_
    rcases List.mem_cons.1 above with rfl | above
    · exact .inl rfl
    · exact .inr ⟨superclass, above,
        (hsuper superclass rfl).mono (traces₁.trans traces₂₄).extended⟩

/-- The iterator of a loop comes from where the answer of `iterate` does. -/
theorem traces_forEach (traced : s.Traced past fence) (line : Nat) (name : Name) (iterable : Expr)
    (body : Stmt) :
    (execScript (.forEach line name iterable body)).Traces past fence history fuel
      (fun completion s' => AllTraced past fence s'.scopes completion.values) s := by
  refine traces_bind (traces_perform traced rfl allTraced_nil fun v s₁ traces₁ _ => ?_)
  split
  · rename_i id _
    have given : AllTraced past fence s₁.scopes (Task.invoke (.inst id) "iterate" [] line).values :=
      allTraced_plain rfl
    refine traces_bind (traces_perform traces₁.traced rfl given fun iterator s₂ traces₂ told => ?_)
    refine traces_bind (traces_rearranging traces₂.traced
      (.cursorFor traces₂.traced.within (traced_of_told told))
      fun cursor s₃ traces₃ hcursor same => ?_)
    have given' : AllTraced past fence s₃.scopes (Task.forEach cursor line name body).values := by
      rw [same]
      cases cursor with
      | direct id => exact allTraced_plain rfl
      | protocol value => exact allTraced_singleton (hcursor value rfl)
    exact traces_perform traces₃.traced rfl given' fun _ _ _ told => told
  · exact traces_fail traces₁.traced

/-- A function comes from the declaration that is executed. -/
theorem traces_funDecl (traced : s.Traced past fence) {declaration : FunDecl}
    (begun : past.moments (.begins (fuel + 1) (.exec (.funDecl declaration)) s)) :
    (execScript (.funDecl declaration)).Traces past fence history fuel
      (fun completion s' => AllTraced past fence s'.scopes completion.values) s := by
  have makes : Eval.Traces past fence (do Eval.newClosure declaration (← get).scope false)
      (fun closure s' => closure.declaration = declaration ∧ closure.scope = s.scope) s :=
    ⟨traced.of_same rfl rfl rfl, rfl, rfl, rfl⟩
  refine traces_bind (traces_doing makes fun closure s₁ traces₁ place₁ h₁ => ?_)
  obtain ⟨declared, kept⟩ := h₁
  have own : closure.Traced past fence s₁.scopes := by
    refine ⟨?_, .function (declared.symm ▸ begun) kept⟩
    rw [kept, ← place₁]
    exact traces₁.traced.clear.of_imp fun _ => .inl
  exact traces_bind (traces_doing (.define traces₁.traced _ (traced_closure own))
    fun _ s₂ traces₂ _ _ => traces_pure traces₂.traced allTraced_nil)

/-- A class comes from the declaration that is executed, and from the superclass that has been found
there, if it has one. -/
theorem traces_classDecl (happened : ∀ m, history m → past.moments m)
    (traced : s.Traced past fence) {name : Name} {superclass : Option Variable}
    {methods : List FunDecl}
    (begun : past.moments
      (.begins (fuel + 1) (.exec (.classDecl name superclass methods)) s)) :
    (execScript (.classDecl name superclass methods)).Traces past fence history fuel
      (fun completion s' => AllTraced past fence s'.scopes completion.values) s := by
  cases superclass with
  | none =>
    refine traces_bind (traces_pure traced (traces_bind (Obeys.imp
      (traces_declareClass happened traced name (fun _ h => by cases h)
        fun scopes scope info base _ made => ?_)
      fun _ s₁ traces₁ => traces_pure traces₁.traced allTraced_nil)))
    cases base rfl
    exact .base begun made
  | some parent =>
    refine traces_bind (traces_performing traced allTraced_nil (fun _ _ => Task.not_runs rfl)
      fun v s₁ ran traces₁ place told => ?_)
    have finds : Eval.Traces past fence (Eval.superclassOf parent.name v)
        (fun cls s' => s' = s₁ ∧ v = .callable (.class cls)) s₁ := by
      unfold Eval.superclassOf
      split
      · exact ⟨.refl traces₁.traced, rfl, rfl, rfl⟩
      · exact State.Traces.refl traces₁.traced
    refine traces_bind (traces_doing finds fun cls s₂ traces₂ _ h₂ => ?_)
    obtain ⟨rfl, rfl⟩ := h₂
    refine traces_bind (traces_pure traces₁.traced (traces_bind (Obeys.imp
      (traces_declareClass happened traces₁.traced name (fun found h => ?_)
        fun scopes scope info _ derived made => ?_)
      fun _ s₃ traces₃ => traces_pure traces₃.traced allTraced_nil)))
    · cases h
      exact traced_of_told told
    · obtain ⟨opened, link⟩ := derived (Option.some_ne_none _)
      rw [place] at link
      exact .derived begun ran opened link made

theorem traces_execScript (happened : ∀ m, history m → past.moments m)
    (traced : s.Traced past fence) {st : Stmt}
    (begun : history (.begins (fuel + 1) (.exec st) s)) :
    (execScript st).Traces past fence history fuel
      (fun completion s' => AllTraced past fence s'.scopes completion.values) s := by
  have begun := happened _ begun
  cases st with
  | print line value =>
    refine traces_bind (traces_perform traced rfl allTraced_nil fun v s₁ traces₁ _ => ?_)
    exact traces_bind (traces_rearranging traces₁.traced (.printValue traces₁.traced.within _ _)
      fun _ s₂ traces₂ _ _ => traces_pure traces₂.traced allTraced_nil)
  | expression value =>
    exact traces_bind (traces_perform traced rfl allTraced_nil fun v s₁ traces₁ _ =>
      traces_pure traces₁.traced allTraced_nil)
  | varDecl name initializer =>
    refine traces_bind (traces_perform traced rfl allTraced_nil fun v s₁ traces₁ told => ?_)
    exact traces_bind (traces_doing (.define traces₁.traced _ (traced_of_told told))
      fun _ s₂ traces₂ _ _ => traces_pure traces₂.traced allTraced_nil)
  | block body =>
    refine traces_bind (traces_openScope traced fun s₁ _ traces₁ _ _ clear₁ => ?_)
    exact traces_performIn traces₁.traced rfl clear₁ allTraced_nil fun _ _ _ told => told
  | ifElse condition thenBranch elseBranch =>
    refine traces_bind (traces_perform traced rfl allTraced_nil fun v s₁ traces₁ _ => ?_)
    split
    · exact traces_perform traces₁.traced rfl allTraced_nil fun _ _ _ told => told
    · split
      · exact traces_perform traces₁.traced rfl allTraced_nil fun _ _ _ told => told
      · exact traces_pure traces₁.traced allTraced_nil
  | whileLoop condition body =>
    exact traces_perform traced rfl allTraced_nil fun _ _ _ told => told
  | forEach line name iterable body => exact traces_forEach traced line name iterable body
  | funDecl declaration => exact traces_funDecl traced begun
  | ret line value =>
    exact traces_bind (traces_perform traced rfl allTraced_nil fun v s₁ traces₁ told =>
      traces_pure traces₁.traced told)
  | classDecl name superclass methods => exact traces_classDecl happened traced begun

/-! ## 5. Loops, bodies and all tasks -/

theorem traces_forEachScript (traced : s.Traced past fence) {cursor : Cursor}
    (given : AllTraced past fence s.scopes cursor.values) (line : Nat) (name : Name) (body : Stmt) :
    (forEachScript cursor line name body).Traces past fence history fuel
      (fun completion s' => AllTraced past fence s'.scopes completion.values) s := by
  have asks : AllTraced past fence s.scopes (Task.cursorHasItems cursor line).values := given
  refine traces_bind (traces_perform traced rfl asks fun more s₁ traces₁ _ => ?_)
  split
  · refine traces_bind (traces_openScope traces₁.traced fun s₂ _ traces₂ _ _ clear₂ => ?_)
    have traces₁₂ := traces₁.trans traces₂
    have looks : AllTraced past fence s₂.scopes (Task.cursorCurrent cursor line).values :=
      given.mono traces₁₂.extended
    refine traces_bind (traces_perform traces₂.traced rfl looks fun value s₃ traces₃ told => ?_)
    have clear₃ := clear₂.mono traces₃.extended
    refine traces_bind (traces_doing (.defineIn traces₃.traced (fun _ hn => clear₃.ne hn) name.text
      (traced_of_told told)) fun _ s₄ traces₄ _ _ => ?_)
    have clear₄ := clear₃.mono traces₄.extended
    refine traces_bind (traces_performIn traces₄.traced rfl clear₄ allTraced_nil
      fun completion s₅ traces₅ told' => ?_)
    have traces₁₅ := traces₁₂.trans (traces₃.trans (traces₄.trans traces₅))
    cases completion with
    | returned value => exact traces_pure traces₅.traced told'
    | normal =>
      have steps : AllTraced past fence s₅.scopes (Task.cursorAdvance cursor line).values :=
        given.mono traces₁₅.extended
      refine traces_bind (traces_perform traces₅.traced rfl steps fun _ s₆ traces₆ _ => ?_)
      have again : AllTraced past fence s₆.scopes (Task.forEach cursor line name body).values :=
        given.mono (traces₁₅.trans traces₆).extended
      exact traces_perform traces₆.traced rfl again fun _ _ _ told => told
  · exact traces_pure traces₁.traced allTraced_nil

/-- A method that is called has been bound, and its closure is not fenced off either. -/
theorem traces_applyMethod (traced : s.Traced past fence) {method : BoundMethod}
    {arguments : List Value} {line : Nat}
    (given : AllTraced past fence s.scopes (Task.applyMethod method arguments line).values) :
    (Task.applyMethod method arguments line).script.Traces past fence history fuel
      (fun answer s' => AllTraced past fence s'.scopes
        ((Task.applyMethod method arguments line).answered answer)) s := by
  obtain ⟨hmethod, harguments⟩ := List.forall_mem_cons.1 given
  obtain ⟨receiver, method⟩ := method
  cases method with
  | builtin method =>
    exact traces_answering traced
      (.callMethod (harmless_traced past fence _) traced.within _ _ harguments _)
  | declared closure =>
    refine traces_performing traced harguments (fun _ _ same => ?_) fun _ _ _ _ _ told => told
    cases same
    exact hmethod.closures closure (.bound receiver closure)

/-- What is called is what the property of the receiver is. -/
theorem traces_invoke (happened : ∀ m, history m → past.moments m) (traced : s.Traced past fence)
    {receiver : Value} {name : String} {arguments : List Value} {line : Nat}
    (given : AllTraced past fence s.scopes (Task.invoke receiver name arguments line).values) :
    (Task.invoke receiver name arguments line).script.Traces past fence history fuel
      (fun answer s' => AllTraced past fence s'.scopes
        ((Task.invoke receiver name arguments line).answered answer)) s := by
  cases receiver with
  | inst id =>
    refine traces_bind (Obeys.imp (traces_getProperty happened traced id name line)
      fun value s₁ h₁ => ?_)
    obtain ⟨traces₁, own⟩ := h₁
    have given' : AllTraced past fence s₁.scopes (Task.call value arguments line).values :=
      allTraced_cons (traced_of_told own)
        (AllTraced.mono (List.forall_mem_cons.1 given).2 traces₁.extended)
    exact traces_perform traces₁.traced rfl given' fun _ _ _ told => told
  | _ => exact traces_fail traced

/-- A loop goes on from whatever state a turn has left. -/
theorem traces_whileLoop (traced : s.Traced past fence) (condition : Expr) (body : Stmt) :
    (Task.whileLoop condition body).script.Traces past fence history fuel
      (fun answer s' => AllTraced past fence s'.scopes
        ((Task.whileLoop condition body).answered answer)) s := by
  refine traces_bind (traces_perform traced rfl allTraced_nil fun v s₁ traces₁ _ => ?_)
  split
  · refine traces_bind (traces_perform traces₁.traced rfl allTraced_nil
      fun completion s₂ traces₂ told => ?_)
    cases completion with
    | normal => exact traces_perform traces₂.traced rfl allTraced_nil fun _ _ _ told => told
    | returned value => exact traces_pure traces₂.traced told
  · exact traces_pure traces₁.traced allTraced_nil

/-- **Every script keeps to the regime**, if the functions that are run keep no scope in the
fence. -/
theorem traces_script (happened : ∀ m, history m → past.moments m)
    (traced : s.Traced past fence) {task : Task}
    (given : AllTraced past fence s.scopes task.values)
    (kept : ∀ closure arguments, task = .applyClosure closure arguments →
      s.scopes.Clear fence.All closure.scope)
    (begun : history (.begins (fuel + 1) task s)) :
    task.script.Traces past fence history fuel
      (fun answer s' => AllTraced past fence s'.scopes (task.answered answer)) s := by
  cases task with
  | eval e => exact traces_evalScript happened traced e
  | evalAll es =>
    cases es with
    | nil => exact traces_pure traced allTraced_nil
    | cons e es =>
      refine traces_bind (traces_perform traced rfl allTraced_nil fun value s₁ traces₁ told => ?_)
      exact traces_bind (traces_perform traces₁.traced rfl allTraced_nil
        fun values s₂ traces₂ told' => traces_pure traces₂.traced
          (allTraced_cons ((traced_of_told told).mono traces₂.extended) told'))
  | evalOptional e =>
    cases e with
    | none => exact traces_pure traced (allTraced_plain rfl)
    | some e => exact traces_perform traced rfl allTraced_nil fun _ _ _ told => told
  | call callee arguments line => exact traces_callScript traced given line
  | apply callable arguments line => exact traces_applyScript happened traced given line
  | applyMethod method arguments line => exact traces_applyMethod traced given
  | applyClosure closure arguments =>
    exact traces_applyClosureScript traced (kept closure arguments rfl) given
  | invoke receiver name arguments line => exact traces_invoke happened traced given
  | exec st => exact traces_execScript happened traced begun
  | execAll body =>
    cases body with
    | nil => exact traces_pure traced allTraced_nil
    | cons st rest =>
      refine traces_bind (traces_perform traced rfl allTraced_nil
        fun completion s₁ traces₁ told => ?_)
      cases completion with
      | normal => exact traces_perform traces₁.traced rfl allTraced_nil fun _ _ _ told => told
      | returned value => exact traces_pure traces₁.traced told
  | whileLoop condition body => exact traces_whileLoop traced condition body
  | forEach cursor line name body => exact traces_forEachScript traced given line name body
  | cursorHasItems cursor line =>
    cases cursor with
    | direct id =>
      exact traces_rearranging traced
        (.of_looks (Eval.Looks.plain.iteratorHasItems id line) traced.within)
        fun _ _ _ _ _ => allTraced_nil
    | protocol iterator =>
      have given' : AllTraced past fence s.scopes (Task.invoke iterator "hasItems" [] line).values :=
        given
      exact traces_bind (traces_perform traced rfl given' fun _ s₁ traces₁ _ =>
        traces_pure traces₁.traced allTraced_nil)
  | cursorCurrent cursor line =>
    cases cursor with
    | direct id =>
      exact traces_answering traced
        (.iteratorCurrent (harmless_traced past fence _) traced.within id line)
    | protocol iterator =>
      have given' : AllTraced past fence s.scopes (Task.invoke iterator "get" [] line).values := given
      exact traces_perform traced rfl given' fun _ _ _ told => told
  | cursorAdvance cursor line =>
    cases cursor with
    | direct id =>
      exact traces_rearranging traced (.iteratorAdvance traced.within id line)
        fun _ _ _ _ _ => allTraced_nil
    | protocol iterator =>
      have given' : AllTraced past fence s.scopes (Task.invoke iterator "move" [] line).values := given
      exact traces_bind (traces_perform traced rfl given' fun _ s₁ traces₁ _ =>
        traces_pure traces₁.traced allTraced_nil)

end Task

/-- **The regime is kept to in every course of events** that has happened and in which no function
is run that keeps a scope in those that are spared. -/
theorem tracing_sound {past : Past} {fence : Fence} {history : Moment → Prop}
    (closed : ∀ m m', history m → m.Next m' → history m')
    (happened : ∀ m, history m → past.moments m)
    (spares : ∀ n, fence.spared n → ∀ fuel closure arguments s,
      history (.begins (fuel + 1) (.applyClosure closure arguments) s) →
      ¬ s.scopes.Inside closure.scope n) :
    (tracing past fence).Sound history where
  closed := closed
  trans _ _ _ := State.Traces.trans
  here _ _ _ h := .refl h.1
  stays _ _ h := .refl h.traced
  leave frame s inner s' start entered h := by
    cases frame with
    | same =>
      cases entered
      exact ⟨h, .refl h.traced⟩
    | scope id =>
      cases entered
      have traced : State.Traced past fence { s' with scope := s.scope } :=
        h.traced.setScope (start.traced.clear.mono h.extended)
      exact ⟨⟨traced, h.extended, h.same⟩, ⟨traced, .refl h.traced.ordered, fun _ _ _ => rfl⟩⟩
    | call line =>
      simp only [Frame.enter] at entered
      split at entered
      · cases entered
      · cases entered
        have left : s'.Traces past fence { s' with depth := s'.depth - 1 } :=
          h.traced.of_same rfl rfl rfl
        exact ⟨⟨left.traced, h.extended, h.same⟩, left⟩
  obeys fuel task s begun h := by
    obtain ⟨traced, given, applied⟩ := h
    refine Task.traces_script happened traced given (fun closure arguments same => ?_) begun
    subst same
    have clear := (applied closure arguments rfl).clear
    exact ⟨clear.lt_size, fun n hn => hn.elim (clear.outside n) fun hn =>
      spares n hn fuel closure arguments s begun⟩

end Lox
