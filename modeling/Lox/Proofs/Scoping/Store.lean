/-
# Sound stores

A store is sound if all values in it are, if `this` and `super` are bound to what they are meant
for, and if only the built-in classes of iterators have instances that hold one.  A state is sound
if besides its resolution has filed all programs that have run.

Every change that evaluation makes keeps the store sound and lets it grow.  It adds names to one
existing scope at most, the one in which a statement is executed; `State.Leads` records all this
of two states, and `Eval.Does` of an evaluation.
-/
import Lox.Proofs.Scoping.Realize
import Lox.Proofs.Eval.Restore

namespace Lox

/-- The built-in classes whose instances are stepped as iterators. -/
def BuiltinClass.IsIterator (kind : BuiltinClass) : Prop :=
  kind = .range ∨ kind = .listIterator ∨ kind = .linkedListIterator

/-! ## 1. Sound stores and states

Soundness ties the values of a store to the programs that have run. -/

/-- All values in a store are sound, and each is of the kind that its place is for. -/
structure Store.Sound (past : Past) (σ : Store) : Prop where
  values : ∀ scope name value, σ.scopes.get? scope name = some value → value.Sound past σ
  /-- A declared method is bound to instances of declared classes only. -/
  this : ∀ scope value, σ.scopes.get? scope "this" = some value →
    ∃ id cls, value = .inst id ∧ σ.heap.class? id = some cls ∧ cls.isBuiltin = false
  super : ∀ scope value, σ.scopes.get? scope "super" = some value →
    ∃ cls, value = .callable (.class cls)
  classes : ∀ id cls, σ.heap.class? id = some cls → cls.Sound past σ
  fields : ∀ id name value, σ.heap.field? id name = some value → value.Sound past σ
  items : ∀ storage index value, σ.heap.item? storage index = some value → value.Sound past σ
  nodes : ∀ id node, σ.heap.nodes.node? id = some node → node.element.Sound past σ
  iterators : ∀ id kind iterator, σ.heap.class? id = some (.builtin kind) →
    σ.heap.payload? id = some (.iterator iterator) → kind.IsIterator

/-- The store is sound, and the programs that have run are filed. -/
structure State.Sound (past : Past) (s : State) : Prop where
  store : s.store.Sound past
  filed : ∀ o, past.Occurs o → o.Filed s.resolution ∧ o.Admissible

/-- A state has come after another one, and at most one of the scopes that existed then has got
new names. -/
structure State.Leads (past : Past) (home : Option ScopeId) (s s' : State) : Prop where
  sound : s'.Sound past
  grows : s.store.Grows s'.store
  names : ∀ scope name, scope < s.scopes.all.size → home ≠ some scope →
    s'.scopes.binds scope name → s.scopes.binds scope name

namespace State.Leads

variable {past : Past} {home : Option ScopeId} {s s' s'' : State}

theorem refl (h : s.Sound past) : s.Leads past home s :=
  ⟨h, .refl _, fun _ _ _ _ hbinds => hbinds⟩

/-- What one stretch leads to, the next one goes on from. -/
theorem trans (h : s.Leads past home s') (h' : s'.Leads past home s'') : s.Leads past home s'' where
  sound := h'.sound
  grows := h.grows.trans h'.grows
  names scope name hlt hhome hbinds :=
    h.names scope name hlt hhome
      (h'.names scope name (Nat.lt_of_lt_of_le hlt h.grows.size) hhome hbinds)

/-- If no scope at home gets a name, then none but the one at home does. -/
theorem of_none (h : s.Leads past none s') : s.Leads past home s' :=
  ⟨h.sound, h.grows, fun scope name hlt _ => h.names scope name hlt (by simp)⟩

/-- Which scope is current does not matter. -/
theorem of_scope {scope : ScopeId} (h : State.Leads past home { s with scope := scope } s')
    (scope' : ScopeId) : s.Leads past home { s' with scope := scope' } :=
  ⟨⟨h.sound.store, h.sound.filed⟩, h.grows, h.names⟩

/-- How many calls are in progress does not matter. -/
theorem of_depth {depth : Nat} (h : State.Leads past home { s with depth := depth } s')
    (depth' : Nat) : s.Leads past home { s' with depth := depth' } :=
  ⟨⟨h.sound.store, h.sound.filed⟩, h.grows, h.names⟩

/-- A scope that was made in between is not one of those that existed. -/
theorem of_new {scope : ScopeId} (h : s.Leads past none s') (h' : s'.Leads past (some scope) s'')
    (new : s.scopes.all.size ≤ scope) : s.Leads past home s'' where
  sound := h'.sound
  grows := h.grows.trans h'.grows
  names other name hlt _ hbinds := by
    refine h.names other name hlt (by simp)
      (h'.names other name (Nat.lt_of_lt_of_le hlt h.grows.size) ?_ hbinds)
    intro heq
    cases heq
    omega

/-- Only the store and the resolution count. -/
theorem of_same (h : s.Sound past) (scopes : s'.scopes = s.scopes) (heap : s'.heap = s.heap)
    (resolution : s'.resolution = s.resolution) : s.Leads past home s' := by
  have store : s'.store = s.store := by simp only [State.store, scopes, heap]
  refine ⟨⟨store ▸ h.store, resolution ▸ h.filed⟩, store ▸ .refl _, ?_⟩
  intro _ _ _ _ hbinds
  rwa [scopes] at hbinds

end State.Leads

/-! ## 2. Changes of the scopes

Reserved names are bound where a scope is made, and ordinary ones anywhere. -/

namespace Store

variable {past : Past} {σ : Store}

/-- A new scope changes none of the others. -/
theorem grows_newScope (σ : Store) (enclosing : ScopeId) :
    σ.Grows ⟨(σ.scopes.add (some enclosing)).2, σ.heap⟩ where
  enclosing scope next hnext := by
    rw [Scopes.enclosing?_add, if_neg (Nat.ne_of_lt (Scopes.lt_size_of_enclosing? hnext)), hnext]
  binds scope name hbinds := by rwa [Scopes.binds_add]
  «class» _ _ h := h
  size := by
    rw [Scopes.size_add]
    omega

/-- A name that is defined is one more. -/
theorem grows_define (σ : Store) (scope : ScopeId) (name : String) (value : Value) :
    σ.Grows ⟨σ.scopes.define scope name value, σ.heap⟩ where
  enclosing other next hnext := by rwa [Scopes.enclosing?_define]
  binds other name' hbinds := by
    rw [Scopes.binds_define, hbinds, Bool.or_true]
  «class» _ _ h := h
  size := Nat.le_of_eq (Scopes.size_define ..).symm

/-- Scopes do not change with the heap. -/
theorem grows_heap (σ : Store) {heap : Heap}
    (classes : ∀ id cls, σ.heap.class? id = some cls → heap.class? id = some cls) :
    σ.Grows ⟨σ.scopes, heap⟩ :=
  ⟨fun _ _ h => h, fun _ _ h => h, classes, Nat.le_refl _⟩

namespace Sound

/-- A new scope binds nothing that could be unsound. -/
theorem newScope (h : σ.Sound past) (enclosing : ScopeId) :
    Store.Sound past ⟨(σ.scopes.add (some enclosing)).2, σ.heap⟩ := by
  have grows := σ.grows_newScope enclosing
  exact {
    values := fun scope name value found =>
      (h.values scope name value (by rwa [Scopes.get?_add] at found)).mono grows
    this := fun scope value found => h.this scope value (by rwa [Scopes.get?_add] at found)
    super := fun scope value found => h.super scope value (by rwa [Scopes.get?_add] at found)
    classes := fun id cls found => (h.classes id cls found).mono grows
    fields := fun id name value found => (h.fields id name value found).mono grows
    items := fun storage index value found => (h.items storage index value found).mono grows
    nodes := fun id node found => (h.nodes id node found).mono grows
    iterators := h.iterators }

/-- A value that is sound once it is bound may be bound to any name; `this` and `super` are for
their own kinds. -/
theorem define (h : σ.Sound past) (scope : ScopeId) {name : String} {value : Value}
    (sound : value.Sound past ⟨σ.scopes.define scope name value, σ.heap⟩)
    (this : name = "this" →
      ∃ id cls, value = .inst id ∧ σ.heap.class? id = some cls ∧ cls.isBuiltin = false)
    (super : name = "super" → ∃ cls, value = .callable (.class cls)) :
    Store.Sound past ⟨σ.scopes.define scope name value, σ.heap⟩ := by
  have grows := σ.grows_define scope name value
  have cases_get : ∀ {other name' found},
      (σ.scopes.define scope name value).get? other name' = some found →
      (name = name' ∧ found = value) ∨ σ.scopes.get? other name' = some found := by
    intro other name' found hfound
    rw [Scopes.get?_define] at hfound
    split at hfound
    · rename_i hsame
      exact Or.inl ⟨hsame.2.1, (Option.some.inj hfound).symm⟩
    · exact Or.inr hfound
  refine {
    values := ?_
    this := ?_
    super := ?_
    classes := fun id cls found => (h.classes id cls found).mono grows
    fields := fun id name value found => (h.fields id name value found).mono grows
    items := fun storage index value found => (h.items storage index value found).mono grows
    nodes := fun id node found => (h.nodes id node found).mono grows
    iterators := h.iterators }
  · intro other name' found hfound
    rcases cases_get hfound with ⟨-, rfl⟩ | hold
    · exact sound
    · exact (h.values other name' found hold).mono grows
  · intro other found hfound
    rcases cases_get hfound with ⟨hname, rfl⟩ | hold
    · exact this hname
    · exact h.this other found hold
  · intro other found hfound
    rcases cases_get hfound with ⟨hname, rfl⟩ | hold
    · exact super hname
    · exact h.super other found hold

/-! ## 3. Changes of the heap

What is put into the heap has to be sound, and nothing else is asked for. -/

/-- A heap may change if what is found in it is sound and no class of an instance is lost. -/
theorem setHeap (h : σ.Sound past) {heap : Heap}
    (kept : ∀ id cls, σ.heap.class? id = some cls → heap.class? id = some cls)
    (classes : ∀ id cls, heap.class? id = some cls → cls.Sound past σ)
    (fields : ∀ id name value, heap.field? id name = some value → value.Sound past σ)
    (items : ∀ storage index value, heap.item? storage index = some value → value.Sound past σ)
    (nodes : ∀ id node, heap.nodes.node? id = some node → node.element.Sound past σ)
    (iterators : ∀ id kind iterator, heap.class? id = some (.builtin kind) →
      heap.payload? id = some (.iterator iterator) → kind.IsIterator) :
    Store.Sound past ⟨σ.scopes, heap⟩ := by
  have grows := σ.grows_heap kept
  refine {
    values := fun scope name value found => (h.values scope name value found).mono grows
    this := ?_
    super := h.super
    classes := fun id cls found => (classes id cls found).mono grows
    fields := fun id name value found => (fields id name value found).mono grows
    items := fun storage index value found => (items storage index value found).mono grows
    nodes := fun id node found => (nodes id node found).mono grows
    iterators := iterators }
  intro scope value found
  obtain ⟨id, cls, hvalue, hcls, declared⟩ := h.this scope value found
  exact ⟨id, cls, hvalue, kept id cls hcls, declared⟩

/-- A new instance has a sound class, and no fields. -/
theorem addInstance (h : σ.Sound past) {cls : Class} (sound : cls.Sound past σ)
    {payload : Option Payload}
    (iterator : ∀ kind held, cls = .builtin kind → payload = some (.iterator held) →
      kind.IsIterator) :
    Store.Sound past ⟨σ.scopes, (σ.heap.add cls payload).2⟩ := by
  refine h.setHeap (fun _ _ found => Heap.class?_add_of_some found cls payload)
    (fun id found hfound => ?_) (fun id name value found => ?_) h.items h.nodes
    (fun id kind held hcls hheld => ?_)
  · rw [Heap.class?_add] at hfound
    split at hfound
    · cases hfound
      exact sound
    · exact h.classes id found hfound
  · rw [Heap.field?_add] at found
    exact h.fields id name value found
  · rw [Heap.class?_add] at hcls
    rw [Heap.payload?_add] at hheld
    split at hcls
    · rename_i hid
      rw [if_pos hid] at hheld
      exact iterator kind held (Option.some.inj hcls) hheld
    · rename_i hid
      rw [if_neg hid] at hheld
      exact h.iterators id kind held hcls hheld

/-- A field holds a sound value. -/
theorem setField (h : σ.Sound past) (self : InstanceId) (name : String) {value : Value}
    (sound : value.Sound past σ) :
    Store.Sound past ⟨σ.scopes, σ.heap.setField self name value⟩ := by
  refine h.setHeap (by simp) (by simpa using h.classes) (fun id other found hfound => ?_) h.items
    h.nodes (by simpa using h.iterators)
  rcases Heap.field?_setField hfound with rfl | hold
  · exact sound
  · exact h.fields id other found hold

/-- A payload that is an iterator is held by an instance of a class of iterators. -/
theorem setPayload (h : σ.Sound past) (self : InstanceId) {payload : Payload}
    (iterator : ∀ kind held, σ.heap.class? self = some (.builtin kind) →
      payload = .iterator held → kind.IsIterator) :
    Store.Sound past ⟨σ.scopes, σ.heap.setPayload self payload⟩ := by
  refine h.setHeap (by simp) (by simpa using h.classes) (by simpa using h.fields) h.items h.nodes
    (fun id kind held hcls hheld => ?_)
  rw [Heap.class?_setPayload] at hcls
  rcases Heap.payload?_setPayload hheld with ⟨rfl, hsame⟩ | hold
  · exact iterator kind held hcls hsame.symm
  · exact h.iterators id kind held hcls hold

/-- A storage holds sound values. -/
theorem addStorage (h : σ.Sound past) {items : Array Value}
    (sound : ∀ value ∈ items, value.Sound past σ) :
    Store.Sound past ⟨σ.scopes, (σ.heap.addStorage items).2⟩ := by
  refine h.setHeap (fun _ _ h => h) h.classes h.fields (fun storage index found hfound => ?_)
    h.nodes h.iterators
  rcases Heap.item?_addStorage hfound with hmem | hold
  · exact sound found hmem
  · exact h.items storage index found hold

theorem pushItem (h : σ.Sound past) (self : StorageId) {value : Value}
    (sound : value.Sound past σ) :
    Store.Sound past ⟨σ.scopes, σ.heap.pushItem self value⟩ := by
  refine h.setHeap (fun _ _ h => h) h.classes h.fields (fun storage index found hfound => ?_)
    h.nodes h.iterators
  rcases Heap.item?_pushItem hfound with rfl | hold
  · exact sound
  · exact h.items storage index found hold

theorem setItem (h : σ.Sound past) (self : StorageId) (place : Nat) {value : Value}
    (sound : value.Sound past σ) :
    Store.Sound past ⟨σ.scopes, σ.heap.setItem self place value⟩ := by
  refine h.setHeap (fun _ _ h => h) h.classes h.fields (fun storage index found hfound => ?_)
    h.nodes h.iterators
  rcases Heap.item?_setItem hfound with rfl | hold
  · exact sound
  · exact h.items storage index found hold

/-- So do the nodes of linked lists. -/
theorem setNodes (h : σ.Sound past) (nodes : Nodes Value)
    (sound : ∀ id node, nodes.node? id = some node → node.element.Sound past σ) :
    Store.Sound past ⟨σ.scopes, { σ.heap with nodes := nodes }⟩ :=
  h.setHeap (fun _ _ h => h) h.classes h.fields h.items sound h.iterators

end Sound

end Store

end Lox
