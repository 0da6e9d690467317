/-
# The scoping contract

A task that evaluates code begins in a scope that realizes the static scopes around the code, and
all occurrences in the code are of programs that have run; a task that calls a value begins with
sound values (`scoping`).  `Task.fits_script` shows that the script of every task keeps to that, so
it holds at every moment of every run.

A scope is *placed* in a stack of static scopes if it realizes the stack and the innermost static
scope names all that it binds.  That is so for the current scope between the statements of a body.
-/
import Lox.Proofs.Scoping.Acts

namespace Lox

open StaticScope
open Occurrence (declaring ofExpr ofExprs ofOptional ofParams ofStmt ofOptionalStmt ofStmts
  ofFunction ofMethods)

/-! ## 1. Placed scopes -/

/-- A scope realizes a stack of static scopes, of which the innermost names all that it binds. -/
structure Placed (past : Past) (σ : Store) (scope : ScopeId) (stack : List StaticScope) : Prop where
  realizes : Realizes past σ scope stack
  names : ∀ static outer, stack = static :: outer → ∀ name, σ.scopes.binds scope name →
    static.names.get? name = some true

namespace Placed

variable {past : Past} {σ : Store} {scope : ScopeId} {stack : List StaticScope}

theorem globals (past : Past) (σ : Store) : Placed past σ globalScope [] :=
  ⟨rfl, fun _ _ h => by cases h⟩

/-- A scope stays placed as long as it is not the one that gets new names. -/
theorem keep {s s' : State} {home : Option ScopeId} (h : Placed past s.store scope stack)
    (leads : s.Leads past home s') (away : home ≠ some scope) :
    Placed past s'.store scope stack := by
  refine ⟨h.realizes.mono leads.grows, fun static outer hstack name hbinds => ?_⟩
  subst hstack
  exact h.names static outer rfl name
    (leads.names scope name (h.realizes.lt_size (List.cons_ne_nil _ _)) away hbinds)

/-- A declaration that is not complete binds nothing yet. -/
theorem declare (h : Placed past σ scope stack) {name : String}
    (new : stack.head?.all fun static => !static.names.contains name) :
    Placed past σ scope (bindName name false stack) := by
  refine ⟨h.realizes.bindName fun _ hc => (by cases hc), fun static outer hstack other hbinds => ?_⟩
  cases stack with
  | nil => cases hstack
  | cons first rest =>
    cases hstack
    have known := h.names first _ rfl other hbinds
    rw [Bindings.get?_insert, if_neg, known]
    rintro rfl
    simp [Bindings.contains, known] at new

/-- A definition completes the declaration of its name. -/
theorem define (h : Placed past σ scope stack) (name : String) (value : Value) :
    Placed past ⟨σ.scopes.define scope name value, σ.heap⟩ scope (bindName name true stack) := by
  have grows := σ.grows_define scope name value
  refine ⟨(h.realizes.mono grows).bindName fun hlocal _ => ?_,
    fun static outer hstack other hbinds => ?_⟩
  · have hlt := h.realizes.lt_size hlocal
    simp [Scopes.binds_define, hlt]
  · cases stack with
    | nil => cases hstack
    | cons first rest =>
      cases hstack
      rw [Bindings.get?_insert]
      split
      · rfl
      · rename_i hne
        simp only [Scopes.binds_define, Bool.or_eq_true, decide_eq_true_eq] at hbinds
        rcases hbinds with ⟨-, rfl, -⟩ | hbinds
        · exact absurd rfl hne
        · exact h.names first _ rfl other hbinds

/-- A scope that has just been made binds nothing. -/
theorem opened (h : Realizes past σ scope stack) {origin : ScopeOrigin}
    (hopened : past.Opened σ.scopes.all.size origin) :
    Placed past ⟨(σ.scopes.add (some scope)).2, σ.heap⟩ σ.scopes.all.size
      (fresh origin :: stack) := by
  refine ⟨(h.mono (σ.grows_newScope scope)).of_opened hopened (fun name hname => by cases hname) ?_,
    fun static outer hstack name hbinds => ?_⟩
  · rw [Scopes.enclosing?_add, if_pos rfl]
  · rw [Scopes.binds_add] at hbinds
    simp only [Scopes.binds, Scopes.get?, Array.getElem?_eq_none (Nat.le_refl _)] at hbinds
    cases hbinds

end Placed

/-- A scope that has just been made for one name, and binds it. -/
theorem Realizes.of_single {past : Past} {σ : Store} {scope : ScopeId} {stack : List StaticScope}
    (h : Realizes past σ scope stack) {origin : ScopeOrigin}
    (opened : past.Opened σ.scopes.all.size origin) (name : String) (value : Value) :
    Realizes past ⟨(σ.scopes.add (some scope)).2.define σ.scopes.all.size name value, σ.heap⟩
      σ.scopes.all.size (⟨origin, Bindings.empty.insert name true⟩ :: stack) := by
  have grows :=
    (σ.grows_newScope scope).trans (Store.grows_define ⟨_, σ.heap⟩ σ.scopes.all.size name value)
  refine (h.mono grows).of_opened opened (fun other hother => ?_) ?_
  · rw [Bindings.get?_insert] at hother
    split at hother
    · rename_i heq
      subst heq
      simp [Scopes.binds_define, Scopes.size_add]
    · cases hother
  · rw [Scopes.enclosing?_define, Scopes.enclosing?_add, if_pos rfl]

/-! ## 2. The contract -/

/-- What a statement returns is sound. -/
def Completion.Sound (past : Past) (σ : Store) : Completion → Prop
  | .normal => True
  | .returned value => value.Sound past σ

/-- A cursor that steps an instance directly is at one of a class of iterators. -/
def Cursor.Sound (past : Past) (σ : Store) : Cursor → Prop
  | .direct id => ∃ kind, σ.heap.class? id = some (.builtin kind) ∧ kind.IsIterator
  | .protocol iterator => iterator.Sound past σ

theorem Cursor.Sound.mono {past : Past} {σ σ' : Store} (grows : σ.Grows σ') {cursor : Cursor}
    (h : cursor.Sound past σ) : cursor.Sound past σ' := by
  cases cursor with
  | direct id =>
    obtain ⟨kind, hcls, stepped⟩ := h
    exact ⟨kind, grows.class _ _ hcls, stepped⟩
  | protocol iterator => exact Value.Sound.mono grows h

/-- All of some values are sound. -/
abbrev Value.AllSound (past : Past) (σ : Store) (values : List Value) : Prop :=
  ∀ value ∈ values, value.Sound past σ

/-- Code can be evaluated: the state is sound, its current scope is placed in the static scopes
around the code, and the occurrences in the code are known. -/
structure State.Ready (past : Past) (stack : List StaticScope) (os : List Occurrence) (s : State) :
    Prop where
  sound : s.Sound past
  placed : Placed past s.store s.scope stack
  known : past.Knows os

/-- The body of a loop or a branch. -/
abbrev Stmt.Branch (s : Stmt) : Prop := s.declared? = none ∧ s.Grammatical

namespace Task

/-- What holds when a task begins, given the static scopes around its code. -/
def Expects (past : Past) : Task → List StaticScope → State → Prop
  | eval e, stack, s => s.Ready past stack (ofExpr stack e)
  | evalAll es, stack, s => s.Ready past stack (ofExprs stack es)
  | evalOptional e, stack, s => s.Ready past stack (ofOptional stack e)
  | call callee arguments _, _, s =>
    s.Sound past ∧ callee.Sound past s.store ∧ Value.AllSound past s.store arguments
  | apply callable arguments _, _, s =>
    s.Sound past ∧ callable.Sound past s.store ∧ Value.AllSound past s.store arguments ∧
      callable.arity = arguments.length
  | applyMethod method arguments _, _, s =>
    s.Sound past ∧ method.Sound past s.store ∧ Value.AllSound past s.store arguments ∧
      method.method.arity = arguments.length
  | applyClosure closure arguments, _, s =>
    s.Sound past ∧ closure.Sound past s.store ∧ Value.AllSound past s.store arguments ∧
      closure.arity = arguments.length
  | invoke _ _ arguments _, _, s =>
    s.Sound past ∧ Value.AllSound past s.store arguments
  | exec st, stack, s => s.Ready past stack (ofStmt stack st) ∧ st.Grammatical
  | execAll body, stack, s => s.Ready past stack (ofStmts stack body) ∧ Stmt.GrammaticalAll body
  | whileLoop condition body, stack, s =>
    s.Ready past stack (ofExpr stack condition ++ ofStmt stack body) ∧ body.Branch
  | forEach cursor _ name body, stack, s =>
    let turn := fresh (.iteration name body) :: stack
    s.Ready past stack (declaring turn name :: ofStmt (bindName name.text true turn) body) ∧
      body.Branch ∧ cursor.Sound past s.store ∧ s.depth < maxDepth
  | cursorHasItems cursor _, _, s | cursorCurrent cursor _, _, s | cursorAdvance cursor _, _, s =>
    s.Sound past ∧ cursor.Sound past s.store

/-- What holds when a task has given an answer. -/
def Gives (past : Past) :
    (task : Task) → List StaticScope → State → task.Answer → State → Prop
  | eval _, _, s, value, s' | evalOptional _, _, s, value, s' | apply .., _, s, value, s'
  | applyMethod .., _, s, value, s' | applyClosure .., _, s, value, s'
  | cursorCurrent .., _, s, value, s' => s.Leads past none s' ∧ value.Sound past s'.store
  | call .., _, s, value, s' | invoke .., _, s, value, s' =>
    s.Leads past none s' ∧ value.Sound past s'.store ∧ s.depth < maxDepth
  | evalAll _, _, s, values, s' => s.Leads past none s' ∧ Value.AllSound past s'.store values
  | exec st, stack, s, completion, s' =>
    s.Leads past (some s.scope) s' ∧ completion.Sound past s'.store ∧
      (completion = .normal → Placed past s'.store s'.scope (st.after stack))
  | execAll _, _, s, completion, s' =>
    s.Leads past (some s.scope) s' ∧ completion.Sound past s'.store
  | whileLoop .., stack, s, completion, s' | forEach .., stack, s, completion, s' =>
    s.Leads past (some s.scope) s' ∧ completion.Sound past s'.store ∧
      (completion = .normal → Placed past s'.store s'.scope stack)
  | cursorHasItems .., _, s, _, s' | cursorAdvance .., _, s, _, s' => s.Leads past none s'

end Task

/-- Every task begins where its code belongs, and leaves a sound state however it ends. -/
def scoping (past : Past) : Contract (List StaticScope) where
  pre := Task.Expects past
  post := Task.Gives past
  stop _ _ s' := s'.Sound past

/-- What there is to show for a script. -/
abbrev Script.Fits (past : Past) (fuel : Nat) {α : Type} (script : Script α)
    (post : α → State → Prop) (s : State) : Prop :=
  script.Meets (scoping past) past.moments fuel (fun _ s' => s'.Sound past) post s

/-! ## 3. Rules for scripts -/

namespace Script

variable {past : Past} {fuel : Nat} {α β : Type} {s : State}

theorem fits_bind {script : Script α} {f : α → Script β} {post : β → State → Prop}
    (h : script.Fits past fuel (fun v s' => (f v).Fits past fuel post s') s) :
    (script >>= f).Fits past fuel post s :=
  meets_bind script s h

theorem fits_pure {value : α} {post : α → State → Prop} (h : post value s) :
    (pure value : Script α).Fits past fuel post s := h

theorem fits_doing (home : Option ScopeId) {x : Eval α} {good : α → State → Prop}
    {post : α → State → Prop}
    (hx : x.Does past home good s) (keeps : Eval.Keeps x)
    (h : ∀ v s', s.Leads past home s' → good v s' → s.SamePlace s' → post v s') :
    (doing x).Fits past fuel post s := by
  have place := keeps s
  change Ends (x s) _ _
  unfold Eval.Does at hx
  cases hs : x s with
  | error interrupt s' =>
    rw [hs] at hx
    exact hx
  | ok v s' =>
    rw [hs] at hx place
    exact h v s' hx.1 hx.2 place

theorem fits_fail {cause : RuntimeCause} {line : Nat} {post : α → State → Prop}
    (sound : s.Sound past) : (doing (Eval.fail cause line : Eval α)).Fits past fuel post s :=
  sound

theorem fits_seeing {view : State → α} {post : α → State → Prop} (h : post (view s) s) :
    (seeing view).Fits past fuel post s := h

/-- A new scope is an instance of what it was made for. -/
theorem fits_opening {origin : ScopeOrigin} {enclosing : ScopeId}
    {post : ScopeId → State → Prop} (sound : s.Sound past)
    (h : ∀ s', past.Opened s.scopes.all.size origin → s.Leads past none s' →
      s'.store = ⟨(s.scopes.add (some enclosing)).2, s.heap⟩ → s.SamePlace s' →
      post s.scopes.all.size s') :
    (opening origin enclosing).Fits past fuel post s := by
  intro opens
  have leads : (Eval.newScope enclosing).Does past none _ s := .newScope sound enclosing
  exact h _ ⟨s, opens, rfl⟩ leads.1 rfl (Eval.Keeps.newScope enclosing s)

theorem fits_openScope {origin : ScopeOrigin} {post : ScopeId → State → Prop} (sound : s.Sound past)
    (h : ∀ s', past.Opened s.scopes.all.size origin → s.Leads past none s' →
      s'.store = ⟨(s.scopes.add (some s.scope)).2, s.heap⟩ → s.SamePlace s' →
      post s.scopes.all.size s') :
    (openScope origin).Fits past fuel post s :=
  fits_bind (fits_opening sound h)

theorem fits_perform {task : Task} {post : task.Answer → State → Prop} (stack : List StaticScope)
    (expects : task.Expects past stack s)
    (h : ∀ v s', task.Gives past stack s v s' → s.SamePlace s' → post v s') :
    (perform task).Fits past fuel post s := by
  intro _
  refine ⟨stack, expects, fun v s' hrun gives => h v s' gives ?_, fun _ _ sound => sound⟩
  have place := Task.keeps_run fuel task s
  rw [hrun] at place
  exact place

/-- The current scope comes back behind a task in another scope. -/
theorem fits_performIn {task : Task} {scope : ScopeId} {post : task.Answer → State → Prop}
    (stack : List StaticScope) (expects : task.Expects past stack { s with scope := scope })
    (h : ∀ v s', task.Gives past stack { s with scope := scope } v s' →
      s.SamePlace { s' with scope := s.scope } → post v { s' with scope := s.scope }) :
    (performIn scope task).Fits past fuel post s := by
  intro _
  refine ⟨stack, expects, fun v s' hrun gives => h v s' gives ?_,
    fun _ _ sound => ⟨sound.store, sound.filed⟩⟩
  have place := Task.keeps_run fuel task { s with scope := scope }
  rw [hrun] at place
  exact ⟨rfl, place.depth, place.resolution, place.scopes⟩

/-- A call begins only if there are not too many in progress. -/
theorem fits_call {task : Task} {line : Nat} {post : task.Answer → State → Prop}
    (sound : s.Sound past) (expects : task.Expects past [] { s with depth := s.depth + 1 })
    (h : ∀ v s', s.depth < maxDepth → task.Gives past [] { s with depth := s.depth + 1 } v s' →
      post v { s' with depth := s'.depth - 1 }) :
    (Script.call (.call line) task .done).Fits past fuel post s := by
  simp only [Fits, Meets, Frame.enter]
  split
  · rename_i full
    split at full
    · cases full
      exact sound
    · cases full
  · rename_i entered
    split at entered
    · cases entered
    · rename_i room
      cases entered
      intro _
      exact ⟨[], expects, fun v s' _ gives => h v s' (Nat.lt_of_not_le room) gives,
        fun _ _ sound => ⟨sound.store, sound.filed⟩⟩

end Script

end Lox
