/-
# Functions and methods stay anchored

Every script keeps the state anchored and retains what the scopes have been made for (`anchoring`).
Only two constructs make scopes for reserved names: a class declaration with a superclass makes one
for `super`, and reading a method from an instance, or through `super`, makes one for `this`.  Each
binds its name at once, and nothing is ever defined in such a scope again.

A scope is made in the scope of a receiver by calls of its methods only, and these begin with the
bound method; so a scope there tells which receiver the method was called on.
-/
import Lox.Proofs.Eval.Regime
import Lox.Proofs.Scoping.Rearrange
import Lox.Proofs.Scoping.Scripts

namespace Lox

/-! ## 1. The regime

What tasks are given and what they answer with is anchored. -/

section Anchoring

variable (past : Past) (scopes : Scopes Value)

/-- All of some values are anchored. -/
abbrev Value.AllAnchored (values : List Value) : Prop :=
  ∀ value ∈ values, value.Anchored past scopes

/-- What a statement returns is anchored. -/
def Completion.Anchored : Completion → Prop
  | .normal => True
  | .returned value => value.Anchored past scopes

/-- What a cursor calls the methods of is anchored. -/
def Cursor.Anchored : Cursor → Prop
  | .direct _ => True
  | .protocol iterator => iterator.Anchored past scopes

/-- A closure that is about to be run.  If it keeps the scope of a receiver, it is the method that
has just been called on the receiver. -/
structure Closure.Called (fuel : Nat) (s : State) (closure : Closure) : Prop where
  lt_size : closure.scope < s.scopes.all.size
  method : ∀ receiver, s.scopes.get? closure.scope "this" = some (.inst receiver) →
    ∃ arguments line, past.moments
      (.begins (fuel + 1) (.applyMethod ⟨receiver, .declared closure⟩ arguments line) s)

namespace Task

/-- What is anchored when a task begins. -/
def Anchored (fuel : Nat) (s : State) : Task → Prop
  | call callee arguments _ => Value.AllAnchored past s.scopes (callee :: arguments)
  | apply callable arguments _ => Value.AllAnchored past s.scopes (.callable callable :: arguments)
  | applyMethod method arguments _ =>
    Value.AllAnchored past s.scopes (.callable (.bound method) :: arguments)
  | applyClosure closure arguments =>
    closure.Called past fuel s ∧ Value.AllAnchored past s.scopes arguments
  | invoke receiver _ arguments _ => Value.AllAnchored past s.scopes (receiver :: arguments)
  | forEach cursor .. | cursorHasItems cursor _ | cursorCurrent cursor _ | cursorAdvance cursor _ =>
    cursor.Anchored past s.scopes
  | eval _ | evalAll _ | evalOptional _ | exec _ | execAll _ | whileLoop .. => True

/-- What is anchored when a task has given an answer. -/
def Answers : (task : Task) → task.Answer → Prop
  | eval _, value | evalOptional _, value | call .., value | apply .., value
  | applyMethod .., value | applyClosure .., value | invoke .., value | cursorCurrent .., value =>
    value.Anchored past scopes
  | evalAll _, values => Value.AllAnchored past scopes values
  | exec _, completion | execAll _, completion | whileLoop .., completion
  | forEach .., completion => completion.Anchored past scopes
  | cursorHasItems .., _ | cursorAdvance .., _ => True

end Task

/-- States stay anchored, and so does whatever goes into tasks and comes out of them. -/
def anchoring : Regime where
  leads := State.Retains past
  pre fuel task s := s.Anchored past ∧ task.Anchored past fuel s
  gives task answer s' := task.Answers past s'.scopes answer

/-- What there is to show for a script. -/
abbrev Script.Anchors (fuel : Nat) {α : Type} (script : Script α) (good : α → State → Prop)
    (s : State) : Prop :=
  script.Obeys (anchoring past) past.moments fuel s good s

end Anchoring

section Rules

variable {past : Past} {fuel : Nat} {α β : Type} {s s' : State}

/-! ## 2. Changes of the state

Every change retains what has been bound to `this` and `super`. -/

/-- What a cursor steps stays anchored. -/
theorem Cursor.Anchored.mono {σ σ' : Store} {cursor : Cursor} (h : cursor.Anchored past σ.scopes)
    (retains : σ.Retains σ') : cursor.Anchored past σ'.scopes := by
  cases cursor with
  | direct id => trivial
  | protocol iterator => exact Value.Anchored.mono retains h

/-- Data and instances hold no closures. -/
theorem Value.harmless_anchored (past : Past) (scopes : Scopes Value) :
    Harmless (Value.Anchored past scopes) where
  data value plain := by
    cases value with
    | callable callable => exact absurd rfl plain
    | _ => trivial
  builtin kind := by
    intro level above name closure own
    obtain rfl := List.mem_singleton.1 above
    cases own

/-- All values of an anchored state are anchored. -/
theorem State.Anchored.within (h : s.Anchored past) : s.Within (Value.Anchored past s.scopes) :=
  h.store.values

/-- Acts that leave the scopes alone retain them. -/
theorem State.Rearranges.retains (h : s.Rearranges (Value.Anchored past s.scopes) s')
    (anchored : s.Anchored past) : s.Retains past s' := by
  have store : s'.store = ⟨s.scopes, s'.heap⟩ := by simp only [State.store, h.scopes]
  have within := h.within
  refine ⟨⟨?_, ?_⟩, ?_⟩
  · rw [State.Within, store] at within
    rw [store]
    exact anchored.store.setHeap h.class within
  · rw [h.scopes, h.scope]
    exact anchored.plain
  · rw [store]
    exact .of_heap h.class

/-- The scopes may change if they are retained. -/
theorem State.Anchored.setScopes (h : s.Anchored past) {scopes : Scopes Value}
    (anchored : Store.Anchored past ⟨scopes, s.heap⟩) (retains : s.store.Retains ⟨scopes, s.heap⟩)
    (stamp : Nat) : s.Retains past { s with scopes := scopes, stamp := stamp } :=
  ⟨⟨anchored, retains.plain h.plain⟩, retains⟩

/-- A new scope binds nothing. -/
theorem Scopes.plain_add (scopes : Scopes Value) (enclosing : Option ScopeId) :
    (scopes.add enclosing).2.Plain scopes.all.size := by
  refine ⟨?_, fun name binds => ?_⟩
  · rw [Scopes.size_add]
    exact Nat.lt_succ_self _
  · rw [Scopes.binds_add, Scopes.binds, Scopes.get?_size] at binds
    cases binds

namespace Eval

/-- An act leads to an anchored state, however it ends. -/
def Anchors (past : Past) (x : Eval α) (good : α → State → Prop) (s : State) : Prop :=
  Ends (x s) (fun v s' => s.Retains past s' ∧ good v s') fun _ s' => s.Retains past s'

namespace Anchors

/-- So they keep the state anchored. -/
theorem of_rearranges (anchored : s.Anchored past) {x : Eval α} {good : α → State → Prop}
    (h : x.Rearranges (Value.Anchored past s.scopes) good s) :
    Anchors past x (fun v s' => good v s' ∧ s'.scopes = s.scopes) s :=
  Ends.imp h (fun _ _ h => ⟨h.1.retains anchored, h.2, h.1.scopes⟩) fun _ _ h => h.retains anchored

/-- An ordinary name is bound in a scope of ordinary names. -/
theorem defineIn (anchored : s.Anchored past) {scope : ScopeId} (plain : s.scopes.Plain scope)
    {name : String} (ordinary : Ordinary name) {value : Value}
    (hvalue : value.Anchored past s.scopes) :
    Anchors past (Eval.defineIn scope name value) (fun _ s' => s'.scopes.Plain scope) s := by
  have retains := Store.Retains.define s.store ordinary plain.ordinary value
  have leads := anchored.setScopes (anchored.store.define ordinary plain.ordinary hvalue) retains
    s.stamp
  exact ⟨leads, retains.plain plain⟩

/-- An ordinary name is defined in a scope of ordinary names. -/
theorem define (anchored : s.Anchored past) {name : String} (ordinary : Ordinary name)
    {value : Value} (hvalue : value.Anchored past s.scopes) :
    Anchors past (Eval.define name value) (fun _ _ => True) s :=
  Ends.imp (defineIn anchored anchored.plain ordinary hvalue) (fun _ _ h => ⟨h.1, trivial⟩)
    fun _ _ h => h

/-- A scope that binds an ordinary name binds no reserved one, so that an assignment does not reach
the scope of a receiver. -/
theorem writeVariable (anchored : s.Anchored past) (target : Variable)
    (ordinary : Ordinary target.name.text) {value : Value} (hvalue : value.Anchored past s.scopes) :
    Anchors past (Eval.writeVariable target value) (fun _ _ => True) s := by
  unfold Eval.writeVariable Anchors
  dsimp only
  split
  · rename_i scope found
    have bound : s.scopes.binds scope target.name.text := (Option.filter_eq_some_iff.1 found).2
    have plain : ∀ other, s.scopes.binds scope other → Ordinary other := by
      intro other binds
      refine Classical.byContradiction fun reserved => reserved ?_
      rw [← anchored.store.alone scope other _ reserved binds bound]
      exact ordinary
    exact ⟨anchored.setScopes (anchored.store.define ordinary plain hvalue)
      (Store.Retains.define s.store ordinary plain value) s.stamp, trivial⟩
  · exact .refl anchored

/-- Parameters are ordinary names. -/
theorem defineAll (anchored : s.Anchored past) {scope : ScopeId} (plain : s.scopes.Plain scope)
    {params : List Name} (ordinary : ∀ name ∈ params, Ordinary name.text) {arguments : List Value}
    (harguments : Value.AllAnchored past s.scopes arguments) :
    Anchors past (Eval.defineAll scope params arguments) (fun _ s' => s'.scopes.Plain scope) s := by
  induction params generalizing arguments s with
  | nil => exact ⟨.refl anchored, plain⟩
  | cons name rest ih =>
    cases arguments with
    | nil => exact ⟨.refl anchored, plain⟩
    | cons value values =>
      refine Ends.bind (Ends.imp (defineIn anchored plain (ordinary name List.mem_cons_self)
        (harguments value List.mem_cons_self)) (fun _ s₁ h₁ => ?_) fun _ _ h => h)
      obtain ⟨retains, plain₁⟩ := h₁
      refine Ends.imp (ih retains.anchored plain₁
        (fun other h => ordinary other (List.mem_cons_of_mem _ h)) fun other h => ?_)
        (fun _ _ h => ⟨retains.trans h.1, h.2⟩) fun _ _ h => retains.trans h
      exact (harguments other (List.mem_cons_of_mem _ h)).mono retains.store

end Anchors

/-- The closures of methods are those of their declarations, in the given scope. -/
theorem newMethods_eq_ok (scope : ScopeId) (declarations : List FunDecl)
    (methods : Bindings Closure) (s : State) :
    ∃ found stamp, newMethods scope declarations methods s = .ok found { s with stamp := stamp } ∧
      ∀ name closure, found.get? name = some closure →
        methods.get? name = some closure ∨
          closure.scope = scope ∧ closure.declaration ∈ declarations := by
  induction declarations generalizing methods s with
  | nil => exact ⟨methods, s.stamp, rfl, fun _ _ h => Or.inl h⟩
  | cons declaration rest ih =>
    obtain ⟨found, stamp, done, kept⟩ := ih
      (methods.insert declaration.name.text
        ⟨s.stamp, declaration, scope, declaration.isInitializer⟩) { s with stamp := s.stamp + 1 }
    refine ⟨found, stamp, done, fun name closure h => ?_⟩
    rcases kept name closure h with given | inScope
    · rw [Bindings.get?_insert] at given
      split at given
      · cases given
        exact Or.inr ⟨rfl, List.mem_cons_self⟩
      · exact Or.inl given
    · exact Or.inr ⟨inScope.1, List.mem_cons_of_mem _ inScope.2⟩

end Eval

/-! ## 3. Rules for scripts

One rule for every way in which a script is put together. -/

namespace Script

/-- Scripts follow each other. -/
theorem anchors_bind {script : Script α} {f : α → Script β} {good : β → State → Prop}
    (h : script.Anchors past fuel (fun v s' => (f v).Anchors past fuel good s') s) :
    (script >>= f).Anchors past fuel good s :=
  obeys_bind (fun _ _ _ => State.Retains.trans) script s h

theorem anchors_pure (anchored : s.Anchored past) {value : α} {good : α → State → Prop}
    (h : good value s) : (pure value : Script α).Anchors past fuel good s :=
  ⟨.refl anchored, h⟩

/-- An act, with what it is shown to do. -/
theorem anchors_doing {x : Eval α} {found good : α → State → Prop} (hx : x.Anchors past found s)
    (h : ∀ v s', s.Retains past s' → found v s' → good v s') :
    (doing x).Anchors past fuel good s :=
  Ends.imp hx (fun v s' hv => ⟨hv.1, h v s' hv.1 hv.2⟩) fun _ _ hi => hi

/-- An act that leaves the scopes alone. -/
theorem anchors_rearranging (anchored : s.Anchored past) {x : Eval α}
    {found good : α → State → Prop}
    (hx : x.Rearranges (Value.Anchored past s.scopes) found s)
    (h : ∀ v s', s.Retains past s' → found v s' → s'.scopes = s.scopes → good v s') :
    (doing x).Anchors past fuel good s :=
  anchors_doing (.of_rearranges anchored hx) fun v s' leads hv => h v s' leads hv.1 hv.2

theorem anchors_fail (anchored : s.Anchored past) {cause : RuntimeCause} {line : Nat}
    {good : α → State → Prop} : (doing (Eval.fail cause line : Eval α)).Anchors past fuel good s :=
  State.Retains.refl anchored

/-- To look at the state changes nothing. -/
theorem anchors_seeing (anchored : s.Anchored past) {view : State → α} {good : α → State → Prop}
    (h : good (view s) s) : (seeing view).Anchors past fuel good s :=
  ⟨.refl anchored, h⟩

/-- A scope is made in a scope that is not that of a receiver, or for a call of its method. -/
theorem anchors_opening (anchored : s.Anchored past) {origin : ScopeOrigin} {enclosing : ScopeId}
    {good : ScopeId → State → Prop} (lt : enclosing < s.scopes.all.size)
    (call : ∀ receiver, s.scopes.get? enclosing "this" = some (.inst receiver) →
      ∃ closure, past.Invokes s.scopes.all.size receiver closure ∧ closure.scope = enclosing)
    (h : ∀ s', s.Retains past s' → s'.scopes.Plain s.scopes.all.size → s'.scope = s.scope →
      good s.scopes.all.size s') :
    (opening origin enclosing).Anchors past fuel good s := by
  intro _
  have leads := anchored.setScopes (anchored.store.newScope lt call) (.newScope s.store enclosing)
    s.stamp
  exact ⟨leads, h _ leads (Scopes.plain_add s.scopes (some enclosing)) rfl⟩

/-- A scope of ordinary names inside the current one. -/
theorem anchors_openScope (anchored : s.Anchored past) {origin : ScopeOrigin}
    {good : ScopeId → State → Prop}
    (h : ∀ s', s.Retains past s' → s'.scopes.Plain s.scopes.all.size → s'.scope = s.scope →
      good s.scopes.all.size s') :
    (openScope origin).Anchors past fuel good s := by
  refine anchors_bind (anchors_seeing anchored ?_)
  refine anchors_opening anchored anchored.plain.lt_size (fun receiver found => ?_) h
  cases (anchored.plain.get?_eq_none reserved_this).symm.trans found

/-- A task is called, and what has come of it is known. -/
theorem anchors_performing (anchored : s.Anchored past) {task : Task}
    {good : task.Answer → State → Prop} (given : task.Anchored past fuel s)
    (h : ∀ v s', task.run fuel s = .ok v s' → s.Retains past s' → task.Answers past s'.scopes v →
      good v s') :
    (perform task).Anchors past fuel good s := by
  refine ⟨.refl anchored, fun inner entered _ => ?_⟩
  cases entered
  exact ⟨⟨anchored, given⟩, fun v s' ran leads answers =>
    ⟨.refl leads.anchored, h v s' ran leads answers⟩⟩

/-- To call a task with what it has to be given. -/
theorem anchors_perform (anchored : s.Anchored past) {task : Task}
    {good : task.Answer → State → Prop} (given : task.Anchored past fuel s)
    (h : ∀ v s', s.Retains past s' → task.Answers past s'.scopes v → good v s') :
    (perform task).Anchors past fuel good s :=
  anchors_performing anchored given fun v s' _ => h v s'

/-- So it is in another scope of ordinary names. -/
theorem anchors_performIn (anchored : s.Anchored past) {scope : ScopeId} {task : Task}
    {good : task.Answer → State → Prop} (plain : s.scopes.Plain scope)
    (given : task.Anchored past fuel { s with scope := scope })
    (h : ∀ v s', s.Retains past s' → task.Answers past s'.scopes v → good v s') :
    (performIn scope task).Anchors past fuel good s := by
  refine ⟨.refl anchored, fun inner entered _ => ?_⟩
  cases entered
  exact ⟨⟨⟨anchored.store, plain⟩, given⟩, fun v s' _ leads answers =>
    ⟨.refl leads.anchored, h v _ leads answers⟩⟩

/-- So it is with one more call in progress. -/
theorem anchors_call (anchored : s.Anchored past) {task : Task} {line : Nat}
    {good : task.Answer → State → Prop}
    (given : task.Anchored past fuel { s with depth := s.depth + 1 })
    (h : ∀ v s', s.Retains past s' → task.Answers past s'.scopes v → good v s') :
    (Script.call (.call line) task .done).Anchors past fuel good s := by
  refine ⟨.refl anchored, fun inner entered _ => ?_⟩
  simp only [Frame.enter] at entered
  split at entered
  · cases entered
  · cases entered
    exact ⟨⟨⟨anchored.store, anchored.plain⟩, given⟩, fun v s' _ leads answers =>
      ⟨.refl leads.anchored, h v _ leads answers⟩⟩

end Script

end Rules

end Lox
