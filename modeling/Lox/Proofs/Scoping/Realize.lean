/-
# Scopes that realize static scopes

A scope realizes a stack of static scopes if following its enclosing links meets, one after the
other, scopes that were made for the constructs of the stack, and at last the globals; and if each
of them binds the names whose declaration is complete.  So a name is found the same number of
scopes out as in the text (`Realizes.bound`).

Closures and classes keep scopes alive that realize the static scopes around their declarations.
`Value.Sound` says so of all closures in a value.  What is true of a store stays true as the store
grows (`Store.Grows`): scopes are only added, gain names, and are never linked anew.
-/
import Lox.Proofs.Scoping.Resolve
import Lox.Proofs.Session.Course
import Lox.Proofs.Value.Heap

namespace Lox

open StaticScope

/-! ## 1. Scopes after a change

Links are made with the scope, and names are added to it later. -/

namespace Scopes

variable {α : Type}

/-- A new scope has the link that it is given, and the others keep theirs. -/
theorem enclosing?_add (scopes : Scopes α) (enclosing : Option ScopeId) (id : ScopeId) :
    (scopes.add enclosing).2.enclosing? id =
      if id = scopes.all.size then enclosing else scopes.enclosing? id := by
  simp only [enclosing?, add, Array.getElem?_push]
  split <;> rfl

/-- A new scope binds nothing. -/
theorem get?_add (scopes : Scopes α) (enclosing : Option ScopeId) (id : ScopeId) (name : String) :
    (scopes.add enclosing).2.get? id name = scopes.get? id name := by
  simp only [get?, add, Array.getElem?_push]
  split
  · rename_i hid
    rw [hid, Array.getElem?_eq_none (Nat.le_refl _)]
    rfl
  · rfl

theorem binds_add (scopes : Scopes α) (enclosing : Option ScopeId) (id : ScopeId) (name : String) :
    (scopes.add enclosing).2.binds id name = scopes.binds id name := by
  simp only [binds, get?_add]

/-- A scope with a link is there. -/
theorem lt_size_of_enclosing? {scopes : Scopes α} {id next : ScopeId}
    (h : scopes.enclosing? id = some next) : id < scopes.all.size := by
  simp only [enclosing?, Option.bind_eq_some_iff] at h
  obtain ⟨scope, hscope, -⟩ := h
  exact (Array.getElem?_eq_some_iff.1 hscope).1

/-- A definition binds its name, and no other. -/
theorem binds_define (scopes : Scopes α) (id other : ScopeId) (name name' : String) (value : α) :
    (scopes.define id name value).binds other name' =
      (decide (id = other ∧ name = name' ∧ other < scopes.all.size) ||
        scopes.binds other name') := by
  simp only [binds, get?_define]
  split <;> simp [*]

end Scopes

/-! ## 2. Stores that grow

Growth is what all acts have in common, so it is what soundness has to be stable under. -/

/-- The scopes and the heap. -/
structure Store where
  scopes : Scopes Value
  heap : Heap

/-- The scopes and the heap of a state. -/
def State.store (s : State) : Store := ⟨s.scopes, s.heap⟩

/-- A store has come after another one. -/
structure Store.Grows (σ σ' : Store) : Prop where
  enclosing : ∀ scope next, σ.scopes.enclosing? scope = some next →
    σ'.scopes.enclosing? scope = some next
  binds : ∀ scope name, σ.scopes.binds scope name → σ'.scopes.binds scope name
  «class» : ∀ id cls, σ.heap.class? id = some cls → σ'.heap.class? id = some cls
  size : σ.scopes.all.size ≤ σ'.scopes.all.size

namespace Store.Grows

theorem refl (σ : Store) : σ.Grows σ :=
  ⟨fun _ _ h => h, fun _ _ h => h, fun _ _ h => h, Nat.le_refl _⟩

/-- A store that has grown twice has grown. -/
theorem trans {σ σ' σ'' : Store} (h : σ.Grows σ') (h' : σ'.Grows σ'') : σ.Grows σ'' where
  enclosing scope next hnext := h'.enclosing scope next (h.enclosing scope next hnext)
  binds scope name hbinds := h'.binds scope name (h.binds scope name hbinds)
  «class» id cls hcls := h'.class id cls (h.class id cls hcls)
  size := Nat.le_trans h.size h'.size

end Store.Grows

/-! ## 3. Static scopes at run time

The text shows a stack of scopes at each place, and the run has a chain of them. -/

/-- A scope and those around it are runtime instances of static scopes, innermost first. -/
def Realizes (past : Past) (σ : Store) : ScopeId → List StaticScope → Prop
  | scope, [] => scope = globalScope
  | scope, static :: outer =>
    past.Opened scope static.origin ∧
      (∀ name, static.names.get? name = some true → σ.scopes.binds scope name) ∧
      ∃ next, σ.scopes.enclosing? scope = some next ∧ Realizes past σ next outer

namespace Realizes

variable {past past' : Past} {σ σ' : Store} {scope : ScopeId} {stack : List StaticScope}

/-- What a scope realizes it goes on to realize, in every later past and store. -/
theorem later (h : Realizes past σ scope stack) (before : past.Before past') (grows : σ.Grows σ') :
    Realizes past' σ' scope stack := by
  induction stack generalizing scope with
  | nil => exact h
  | cons static outer ih =>
    obtain ⟨opened, complete, next, hnext, inner⟩ := h
    exact ⟨before.opened opened, fun name hname => grows.binds _ _ (complete name hname), next,
      grows.enclosing _ _ hnext, ih inner⟩

/-- What a scope realizes does not change as the store grows. -/
theorem mono (h : Realizes past σ scope stack) (grows : σ.Grows σ') :
    Realizes past σ' scope stack :=
  h.later (.refl past) grows

/-- Every static scope of the stack is met at its place, and the globals come last. -/
theorem instance_at (h : Realizes past σ scope stack) :
    (∀ hops static, stack[hops]? = some static → ∃ target,
      σ.scopes.ancestor? scope hops = some target ∧ past.Opened target static.origin) ∧
    σ.scopes.ancestor? scope stack.length = some globalScope := by
  induction stack generalizing scope with
  | nil => exact ⟨fun _ _ hstatic => (by cases hstatic), congrArg some h⟩
  | cons static outer ih =>
    obtain ⟨opened, -, next, hnext, inner⟩ := h
    obtain ⟨instances, last⟩ := ih inner
    refine ⟨fun hops found hfound => ?_, ?_⟩
    · cases hops with
      | zero =>
        cases hfound
        exact ⟨scope, rfl, opened⟩
      | succ hops =>
        obtain ⟨target, htarget, hopened⟩ := instances hops found hfound
        exact ⟨target, by simpa only [Scopes.ancestor?, hnext] using htarget, hopened⟩
    · simpa only [List.length_cons, Scopes.ancestor?, hnext] using last

/-- **A name is found at run time where it is found in the text**: the scope so many links out is
the instance of the static scope that declares the name, and binds it once the declaration is
complete. -/
theorem bound (h : Realizes past σ scope stack) {name : String} {hops : Nat} {complete : Bool}
    (found : locate name stack = some (hops, complete)) :
    ∃ target static, σ.scopes.ancestor? scope hops = some target ∧ stack[hops]? = some static ∧
      past.Opened target static.origin ∧ static.names.get? name = some complete ∧
      (complete = true → σ.scopes.binds target name) := by
  induction stack generalizing scope hops with
  | nil => cases found
  | cons static outer ih =>
    obtain ⟨opened, declared, next, hnext, inner⟩ := h
    simp only [locate] at found
    cases hn : static.names.get? name with
    | some here =>
      simp only [hn, Option.some.injEq, Prod.mk.injEq] at found
      obtain ⟨rfl, rfl⟩ := found
      exact ⟨scope, static, rfl, rfl, opened, hn, fun hc => declared name (hc ▸ hn)⟩
    | none =>
      simp only [hn, Option.map_eq_some_iff, Prod.mk.injEq] at found
      obtain ⟨⟨outerHops, outerComplete⟩, found, rfl, rfl⟩ := found
      obtain ⟨target, static', htarget, hstatic, hopened, hnames, hbinds⟩ := ih inner found
      exact ⟨target, static', by simpa only [Scopes.ancestor?, hnext] using htarget, hstatic,
        hopened, hnames, hbinds⟩

/-- A scope that has just been made for a construct. -/
theorem of_opened (h : Realizes past σ scope stack) {static : StaticScope} {inner : ScopeId}
    (opened : past.Opened inner static.origin)
    (complete : ∀ name, static.names.get? name = some true → σ.scopes.binds inner name)
    (enclosing : σ.scopes.enclosing? inner = some scope) :
    Realizes past σ inner (static :: stack) :=
  ⟨opened, complete, scope, enclosing, h⟩

/-- A name that the innermost scope binds may be entered as complete, any name as not. -/
theorem bindName (h : Realizes past σ scope stack) {name : String} {complete : Bool}
    (hname : stack ≠ [] → complete = true → σ.scopes.binds scope name) :
    Realizes past σ scope (bindName name complete stack) := by
  cases stack with
  | nil => exact h
  | cons static outer =>
    obtain ⟨opened, declared, next, hnext, inner⟩ := h
    refine ⟨opened, fun other hother => ?_, next, hnext, inner⟩
    rw [Bindings.get?_insert] at hother
    split at hother
    · rename_i heq
      subst heq
      exact hname (List.cons_ne_nil _ _) (Option.some.inj hother)
    · exact declared other hother

/-- A scope that realizes something is there. -/
theorem lt_size (h : Realizes past σ scope stack) (local_ : stack ≠ []) :
    scope < σ.scopes.all.size := by
  cases stack with
  | nil => exact absurd rfl local_
  | cons static outer =>
    obtain ⟨-, -, next, hnext, -⟩ := h
    exact Scopes.lt_size_of_enclosing? hnext

end Realizes

/-! ## 4. Values

A closure comes with the place of its declaration, so its scope realizes the stack at that place. -/

/-- All occurrences in a list are of programs that have run. -/
def Past.Knows (past : Past) (os : List Occurrence) : Prop := ∀ o ∈ os, past.Occurs o

section Sound

variable (past : Past) (σ : Store)

/-- A function has kept the scopes around its declaration. -/
def Closure.Sound (closure : Closure) : Prop :=
  ∃ stack, Realizes past σ closure.scope stack ∧ closure.declaration.Grammatical ∧
    past.Knows (Occurrence.ofFunction stack closure.declaration)

/-- A method of a class has kept the scopes around the declaration of the class, and that of
`super`; the scope of `this` comes with the receiver. -/
def Closure.MethodSound (closure : Closure) : Prop :=
  ∃ stack, Realizes past σ closure.scope stack ∧ closure.declaration.Grammatical ∧
    past.Knows (Occurrence.ofFunction (receiver closure.declaration :: stack) closure.declaration)

/-- All methods of a class are sound. -/
def Class.Sound : Class → Prop
  | .builtin _ => True
  | .base info => ∀ name closure, info.methods.get? name = some closure → closure.MethodSound past σ
  | .derived info superclass =>
    (∀ name closure, info.methods.get? name = some closure → closure.MethodSound past σ) ∧
      superclass.Sound

/-- A method for instances of a class: a built-in class has its own, a declared class may have
declared ones. -/
def Method.OwnedBy (cls : Class) : Method → Prop
  | .builtin method => ∀ kind, cls = .builtin kind → method ∈ kind.methods
  | .declared closure => closure.MethodSound past σ ∧ cls.isBuiltin = false

/-- A method that may be bound to an instance. -/
def Method.Bindable (receiver : InstanceId) (method : Method) : Prop :=
  ∃ cls, σ.heap.class? receiver = some cls ∧ method.OwnedBy past σ cls

/-- A method that has been bound to an instance; a declared one has the scope of `this`. -/
def BoundMethod.Sound (bound : BoundMethod) : Prop :=
  match bound.method with
  | .builtin method => ∃ cls, σ.heap.class? bound.receiver = some cls ∧
      ∀ kind, cls = .builtin kind → method ∈ kind.methods
  | .declared closure => closure.Sound past σ

/-- All closures in a callable are sound. -/
def Callable.Sound : Callable → Prop
  | .builtin _ => True
  | .closure c => c.Sound past σ
  | .bound m => m.Sound past σ
  | .class cls => cls.Sound past σ

/-- All closures in a value are sound; what an instance holds is in the heap. -/
def Value.Sound : Value → Prop
  | .callable c => c.Sound past σ
  | _ => True

end Sound

section Later

variable {past past' : Past} {σ σ' : Store} (before : past.Before past') (grows : σ.Grows σ')

include before in
/-- What is known of the past is known later on. -/
theorem Past.Knows.later {os : List Occurrence} (h : past.Knows os) : past'.Knows os :=
  fun o ho => before.occurs (h o ho)

include before grows

/-- A closure is sound later on, since its scope is kept. -/
theorem Closure.Sound.later {closure : Closure} (h : closure.Sound past σ) :
    closure.Sound past' σ' := by
  obtain ⟨stack, realizes, grammatical, known⟩ := h
  exact ⟨stack, realizes.later before grows, grammatical, known.later before⟩

theorem Closure.MethodSound.later {closure : Closure} (h : closure.MethodSound past σ) :
    closure.MethodSound past' σ' := by
  obtain ⟨stack, realizes, grammatical, known⟩ := h
  exact ⟨stack, realizes.later before grows, grammatical, known.later before⟩

/-- So is a class, method by method. -/
theorem Class.Sound.later {cls : Class} (h : cls.Sound past σ) : cls.Sound past' σ' := by
  induction cls with
  | builtin kind => trivial
  | base info => exact fun name closure found => (h name closure found).later before grows
  | derived info superclass ih =>
    exact ⟨fun name closure found => (h.1 name closure found).later before grows, ih h.2⟩

/-- So is a method that has been bound. -/
theorem BoundMethod.Sound.later {bound : BoundMethod} (h : bound.Sound past σ) :
    bound.Sound past' σ' := by
  obtain ⟨receiver, method⟩ := bound
  cases method with
  | builtin method =>
    obtain ⟨cls, hcls, own⟩ := h
    exact ⟨cls, grows.class receiver cls hcls, own⟩
  | declared closure => exact Closure.Sound.later before grows h

theorem Callable.Sound.later {callable : Callable} (h : callable.Sound past σ) :
    callable.Sound past' σ' := by
  cases callable with
  | builtin function => trivial
  | closure closure => exact Closure.Sound.later before grows h
  | bound method => exact BoundMethod.Sound.later before grows h
  | «class» cls => exact Class.Sound.later before grows h

/-- So is every value. -/
theorem Value.Sound.later {value : Value} (h : value.Sound past σ) : value.Sound past' σ' := by
  cases value with
  | callable callable => exact Callable.Sound.later before grows h
  | _ => trivial

end Later

section Mono

variable {past : Past} {σ σ' : Store} (grows : σ.Grows σ')

include grows

theorem Class.Sound.mono {cls : Class} (h : cls.Sound past σ) : cls.Sound past σ' :=
  h.later (.refl past) grows

/-- In particular as the store grows while nothing is added to the past. -/
theorem Value.Sound.mono {value : Value} (h : value.Sound past σ) : value.Sound past σ' :=
  h.later (.refl past) grows

end Mono

/-- A method that is found in a class may be bound to an instance of it. -/
theorem Class.Sound.findMethod? {past : Past} {σ : Store} {cls : Class} (h : cls.Sound past σ)
    {name : String} {method : Method} (found : cls.findMethod? name = some method) :
    method.OwnedBy past σ cls := by
  induction cls with
  | builtin kind =>
    simp only [Class.findMethod?, Option.map_eq_some_iff] at found
    obtain ⟨method, hmethod, rfl⟩ := found
    intro kind' hkind
    cases hkind
    exact List.mem_of_find?_eq_some hmethod
  | base info =>
    simp only [Class.findMethod?, Option.map_eq_some_iff] at found
    obtain ⟨closure, hclosure, rfl⟩ := found
    exact ⟨h name closure hclosure, rfl⟩
  | derived info superclass ih =>
    simp only [Class.findMethod?] at found
    cases hown : info.methods.get? name with
    | some closure =>
      simp only [hown, Option.some.injEq] at found
      subst found
      exact ⟨h.1 name closure hown, rfl⟩
    | none =>
      simp only [hown] at found
      have inherited := ih h.2 found
      cases method with
      | builtin method => exact fun kind hkind => by cases hkind
      | declared closure => exact ⟨inherited.1, rfl⟩

end Lox
