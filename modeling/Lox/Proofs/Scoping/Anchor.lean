/-
# Where functions and methods are anchored

A closure is anchored in the scope that it keeps.  A function keeps a scope of ordinary names, a
method of a class the scope that binds `super` to the superclass, if there is one, and a method
that has been bound to an instance a scope that binds `this` to the instance.  `Value.Anchored`
says so of all closures in a value.

A store is anchored (`Store.Anchored`) if all values in it are, and if each scope of a receiver has
been made for a method of a class that the receiver is an instance of, its own or one above it.
What is anchored stays anchored in every store that retains the scopes of the first one
(`Store.Retains`): no scope is linked anew, and what is bound to `this` and `super` stays as it is.
-/
import Lox.Proofs.Scoping.Holding

namespace Lox

/-! ## 1. What a class defines itself

Methods are found along the chain of a class, at the first class that defines one itself. -/

namespace Class

/-- The method that a class itself defines under a name. -/
def own? (name : String) : Class → Option Method
  | builtin kind => (kind.method? name).map .builtin
  | base info | derived info _ => (info.methods.get? name).map .declared

variable {cls level : Class} {name : String}

/-- What a declared class defines itself is in its table of methods. -/
theorem own?_eq_declared {closure : Closure} :
    level.own? name = some (.declared closure) ↔ level.methods.get? name = some closure := by
  cases level with
  | builtin kind => simp [own?, methods]
  | base info => simp [own?, methods]
  | derived info superclass => simp [own?, methods]

/-- A method is found in the first class along the chain that defines it. -/
theorem findMethod?_eq (name : String) (cls : Class) :
    cls.findMethod? name = cls.chain.findSome? (own? name) := by
  induction cls with
  | builtin kind => simp [findMethod?, chain, own?]
  | base info => simp [findMethod?, chain, own?]
  | derived info superclass ih =>
    rw [findMethod?, chain, List.findSome?_cons, ih]
    cases hown : info.methods.get? name <;> simp [own?, hown]

/-- A method that is found in a class is one that some class along its chain defines itself. -/
theorem own?_of_findMethod? {method : Method} (h : cls.findMethod? name = some method) :
    ∃ level ∈ cls.chain, level.own? name = some method := by
  rw [findMethod?_eq] at h
  exact List.exists_of_findSome?_eq_some h

/-- The chain of a class ends with those of the classes in it. -/
theorem chain_suffix_of_mem (above : level ∈ cls.chain) : level.chain <:+ cls.chain := by
  induction cls with
  | builtin kind =>
    obtain rfl := List.mem_singleton.1 above
    exact List.suffix_refl _
  | base info =>
    obtain rfl := List.mem_singleton.1 above
    exact List.suffix_refl _
  | derived info superclass ih =>
    rcases List.mem_cons.1 above with rfl | above
    · exact List.suffix_refl _
    · exact (ih above).trans (List.suffix_cons _ _)

/-- No class is above itself. -/
theorem nodup_chain (cls : Class) : cls.chain.Nodup := by
  induction cls with
  | builtin kind => exact List.pairwise_singleton _ _
  | base info => exact List.pairwise_singleton _ _
  | derived info superclass ih =>
    refine List.nodup_cons.2 ⟨fun above => ?_, ih⟩
    have shorter := (chain_suffix_of_mem above).length_le
    rw [chain, List.length_cons] at shorter
    omega

end Class

/-! ## 2. Reserved names

`this` and `super` are bound in scopes of their own, so no declaration and no assignment touches
them. -/

/-- A name that only the scopes of receivers and of superclasses bind. -/
abbrev Reserved (name : String) : Prop := ¬ Ordinary name

theorem reserved_this : Reserved "this" := fun ordinary => ordinary.1 rfl

theorem reserved_super : Reserved "super" := fun ordinary => ordinary.2 rfl

/-- A scope that exists and binds ordinary names only. -/
structure Scopes.Plain (scopes : Scopes Value) (scope : ScopeId) : Prop where
  lt_size : scope < scopes.all.size
  ordinary : ∀ name, scopes.binds scope name → Ordinary name

/-- A reserved name is not bound in a scope of ordinary ones. -/
theorem Scopes.Plain.get?_eq_none {scopes : Scopes Value} {scope : ScopeId}
    (h : scopes.Plain scope) {name : String} (reserved : Reserved name) :
    scopes.get? scope name = none := by
  rw [← Option.not_isSome_iff_eq_none]
  exact fun binds => reserved (h.ordinary name binds)

theorem Scopes.binds_of_get? {scopes : Scopes Value} {scope : ScopeId} {name : String}
    {value : Value} (h : scopes.get? scope name = some value) : scopes.binds scope name := by
  rw [binds, h]
  rfl

/-- A store has come after another one: the scopes of the first one are still linked in the same
way, and what is bound to `this` and `super` there has not changed.  A scope that binds one of these
has not changed at all. -/
structure Store.Retains (σ σ' : Store) : Prop where
  size : σ.scopes.all.size ≤ σ'.scopes.all.size
  enclosing : ∀ scope, scope < σ.scopes.all.size →
    σ'.scopes.enclosing? scope = σ.scopes.enclosing? scope
  reserved : ∀ scope name, scope < σ.scopes.all.size → Reserved name →
    σ'.scopes.get? scope name = σ.scopes.get? scope name
  sealed : ∀ scope name other, Reserved name → σ.scopes.binds scope name →
    σ'.scopes.get? scope other = σ.scopes.get? scope other
  «class» : ∀ id cls, σ.heap.class? id = some cls → σ'.heap.class? id = some cls

namespace Store.Retains

variable {σ σ' σ'' : Store}

theorem refl (σ : Store) : σ.Retains σ :=
  ⟨Nat.le_refl _, fun _ _ => rfl, fun _ _ _ _ => rfl, fun _ _ _ _ _ => rfl, fun _ _ h => h⟩

/-- What is retained twice is retained. -/
theorem trans (h : σ.Retains σ') (h' : σ'.Retains σ'') : σ.Retains σ'' where
  size := Nat.le_trans h.size h'.size
  enclosing scope lt :=
    (h'.enclosing scope (Nat.lt_of_lt_of_le lt h.size)).trans (h.enclosing scope lt)
  reserved scope name lt reserved :=
    (h'.reserved scope name (Nat.lt_of_lt_of_le lt h.size) reserved).trans
      (h.reserved scope name lt reserved)
  sealed scope name other reserved binds := by
    have kept := h.sealed scope name name reserved binds
    refine (h'.sealed scope name other reserved ?_).trans (h.sealed scope name other reserved binds)
    rwa [Scopes.binds, kept]
  «class» id cls found := h'.class id cls (h.class id cls found)

/-- A scope of ordinary names stays one. -/
theorem plain (h : σ.Retains σ') {scope : ScopeId} (plain : σ.scopes.Plain scope) :
    σ'.scopes.Plain scope := by
  refine ⟨Nat.lt_of_lt_of_le plain.lt_size h.size, fun name binds =>
    Classical.byContradiction fun reserved => ?_⟩
  rw [Scopes.binds, h.reserved scope name plain.lt_size reserved] at binds
  exact reserved (plain.ordinary name binds)

/-- Only links, reserved names and the classes of instances are retained. -/
theorem of_heap {heap : Heap}
    (kept : ∀ id cls, σ.heap.class? id = some cls → heap.class? id = some cls) :
    σ.Retains ⟨σ.scopes, heap⟩ :=
  ⟨Nat.le_refl _, fun _ _ => rfl, fun _ _ _ _ => rfl, fun _ _ _ _ _ => rfl, kept⟩

end Store.Retains

/-! ## 3. Values

To be anchored is a property of the scopes that closures keep. -/

/-- A class has been declared with a superclass: the value that the variable after `<` had then. -/
def Past.Derives (past : Past) (info : ClassInfo) (superclass : Class) (methods : List FunDecl) :
    Prop :=
  ∃ fuel name parent s s',
    past.moments (.begins (fuel + 1) (.exec (.classDecl name (some parent) methods)) s) ∧
      Eval.eval fuel (.variable parent) s = .ok (.callable (.class superclass)) s' ∧
      info.name = name.text

section Anchored

variable (past : Past) (scopes : Scopes Value)

/-- A method of a class keeps a scope that binds `super` to the superclass, if there is one, and
that was made for the methods in the declaration of the class. -/
structure Closure.MethodOf (level : Class) (closure : Closure) : Prop where
  lt_size : closure.scope < scopes.all.size
  this : scopes.get? closure.scope "this" = none
  super : match level with
    | .derived info superclass =>
      scopes.get? closure.scope "super" = some (.callable (.class superclass)) ∧
        ∃ methods, closure.declaration ∈ methods ∧ past.Opened closure.scope (.superclass methods) ∧
          past.Derives info superclass methods
    | _ => scopes.get? closure.scope "super" = none

/-- All methods along the chain of a class keep the scopes of their superclasses. -/
def Class.Anchored (cls : Class) : Prop :=
  ∀ level ∈ cls.chain, ∀ name closure, level.methods.get? name = some closure →
    closure.MethodOf past scopes level

/-- A method that has been bound keeps the scope of its receiver. -/
def BoundMethod.Anchored (bound : BoundMethod) : Prop :=
  match bound.method with
  | .builtin _ => True
  | .declared closure => scopes.get? closure.scope "this" = some (.inst bound.receiver) ∧
      past.Opened closure.scope (.receiver closure.declaration)

/-- All closures in a callable are anchored. -/
def Callable.Anchored : Callable → Prop
  | .builtin _ => True
  | .closure c => scopes.Plain c.scope
  | .bound m => m.Anchored past scopes
  | .class cls => cls.Anchored past scopes

/-- All closures in a value are anchored. -/
def Value.Anchored : Value → Prop
  | .callable c => c.Anchored past scopes
  | _ => True

end Anchored

theorem Scopes.lt_size_of_get? {scopes : Scopes Value} {scope : ScopeId} {name : String}
    {value : Value} (h : scopes.get? scope name = some value) : scope < scopes.all.size := by
  simp only [get?, Option.bind_eq_some_iff] at h
  obtain ⟨found, hfound, -⟩ := h
  exact (Array.getElem?_eq_some_iff.1 hfound).1

section Retained

variable {past : Past} {σ σ' : Store} (retains : σ.Retains σ')

include retains

/-- The scope that a method keeps is there later on, and binds the same superclass. -/
theorem Closure.MethodOf.mono {level : Class} {closure : Closure}
    (h : closure.MethodOf past σ.scopes level) : closure.MethodOf past σ'.scopes level where
  lt_size := Nat.lt_of_lt_of_le h.lt_size retains.size
  this := (retains.reserved _ _ h.lt_size reserved_this).trans h.this
  super := by
    have kept := retains.reserved _ _ h.lt_size reserved_super
    cases level with
    | builtin kind => exact kept.trans h.super
    | base info => exact kept.trans h.super
    | derived info superclass => exact ⟨kept.trans h.super.1, h.super.2⟩

/-- A class stays anchored, method by method. -/
theorem Class.Anchored.mono {cls : Class} (h : cls.Anchored past σ.scopes) :
    cls.Anchored past σ'.scopes :=
  fun level above name closure own => (h level above name closure own).mono retains

/-- So does every value. -/
theorem Value.Anchored.mono {value : Value} (h : value.Anchored past σ.scopes) :
    value.Anchored past σ'.scopes := by
  cases value with
  | callable callable =>
    cases callable with
    | builtin function => trivial
    | closure closure => exact retains.plain h
    | bound method =>
      obtain ⟨receiver, method⟩ := method
      cases method with
      | builtin method => trivial
      | declared closure =>
        obtain ⟨this, opened⟩ := h
        have kept := retains.reserved _ _ (Scopes.lt_size_of_get? this) reserved_this
        exact ⟨kept.trans this, opened⟩
    | «class» cls => exact Class.Anchored.mono retains h
  | _ => trivial

end Retained

/-! ## 4. Stores and states

The scope of a receiver is tied to the moment in which it has been made, and this to the class of
the method. -/

/-- A scope has been made for a call of a method that was bound to an instance. -/
def Past.Invokes (past : Past) (call : ScopeId) (receiver : InstanceId) (closure : Closure) :
    Prop :=
  ∃ fuel arguments line s, call = s.scopes.all.size ∧
    past.moments (.begins (fuel + 2) (.applyMethod ⟨receiver, .declared closure⟩ arguments line) s)

/-- A scope has been made for a method of a class and a receiver that is an instance of it, or of
a class below it. -/
structure Store.Receives (past : Past) (σ : Store) (scope : ScopeId) (receiver : InstanceId)
    (cls level : Class) (name : String) (closure : Closure) : Prop where
  «class» : σ.heap.class? receiver = some cls
  above : level ∈ cls.chain
  own : level.methods.get? name = some closure
  enclosing : σ.scopes.enclosing? scope = some closure.scope
  opened : past.Opened scope (.receiver closure.declaration)

/-- All values in a store are anchored, and the scopes that bind `this` and `super` are what they
have been made for. -/
structure Store.Anchored (past : Past) (σ : Store) : Prop where
  values : ∀ value, σ.Holds value → value.Anchored past σ.scopes
  linked : ∀ scope next, σ.scopes.enclosing? scope = some next → next < σ.scopes.all.size
  /-- A scope that binds a reserved name binds no other name. -/
  alone : ∀ scope name other, Reserved name → σ.scopes.binds scope name →
    σ.scopes.binds scope other → other = name
  receivers : ∀ scope value, σ.scopes.get? scope "this" = some value →
    ∃ receiver cls level name closure, value = .inst receiver ∧
      σ.Receives past scope receiver cls level name closure
  /-- A scope in the scope of a receiver is that of a call. -/
  calls : ∀ call scope receiver, σ.scopes.enclosing? call = some scope →
    σ.scopes.get? scope "this" = some (.inst receiver) →
      ∃ closure, past.Invokes call receiver closure ∧ closure.scope = scope

/-- The store is anchored, and statements bind ordinary names. -/
structure State.Anchored (past : Past) (s : State) : Prop where
  store : s.store.Anchored past
  plain : s.scopes.Plain s.scope

/-- An anchored state has come after another state. -/
structure State.Retains (past : Past) (s s' : State) : Prop where
  anchored : s'.Anchored past
  store : s.store.Retains s'.store

namespace State.Retains

variable {past : Past} {s s' s'' : State}

theorem refl (h : s.Anchored past) : s.Retains past s := ⟨h, .refl _⟩

theorem trans (h : s.Retains past s') (h' : s'.Retains past s'') : s.Retains past s'' :=
  ⟨h'.anchored, h.store.trans h'.store⟩

/-- Only the store and the current scope count. -/
theorem of_same (h : s.Anchored past) (scopes : s'.scopes = s.scopes) (heap : s'.heap = s.heap)
    (scope : s'.scope = s.scope) : s.Retains past s' := by
  have store : s'.store = s.store := by simp only [State.store, scopes, heap]
  refine ⟨⟨store ▸ h.store, ?_⟩, store ▸ .refl _⟩
  rw [scopes, scope]
  exact h.plain

end State.Retains

/-! ## 5. Changes of the scopes

A scope may be added, and a name may be defined in a scope that is no receiver's. -/

section Changes

variable {past : Past} {σ : Store}

/-- What a store holds, if its scopes have been changed. -/
theorem Store.holds_scopes {P : Value → Prop} (held : ∀ value, σ.Holds value → P value)
    {scopes : Scopes Value}
    (bound : ∀ scope name value, scopes.get? scope name = some value → P value) :
    ∀ value, Store.Holds ⟨scopes, σ.heap⟩ value → P value := by
  intro value holds
  cases holds with
  | bound found => exact bound _ _ _ found
  | field found => exact held _ (.field found)
  | item found => exact held _ (.item found)
  | element found => exact held _ (.element found)
  | «class» found => exact held _ (.class found)

/-- What a store holds, if its heap has been changed. -/
theorem Store.holds_heap {P : Value → Prop} (held : ∀ value, σ.Holds value → P value) {heap : Heap}
    (classes : ∀ id cls, heap.class? id = some cls → P (.callable (.class cls)))
    (fields : ∀ id name value, heap.field? id name = some value → P value)
    (items : ∀ storage index value, heap.item? storage index = some value → P value)
    (nodes : ∀ id node, heap.nodes.node? id = some node → P node.element) :
    ∀ value, Store.Holds ⟨σ.scopes, heap⟩ value → P value := by
  intro value holds
  cases holds with
  | bound found => exact held _ (.bound found)
  | field found => exact fields _ _ _ found
  | item found => exact items _ _ _ found
  | element found => exact nodes _ _ found
  | «class» found => exact classes _ _ found

/-- What a scope has been made for does not change. -/
theorem Store.Receives.mono {σ' : Store} {scope : ScopeId} {receiver : InstanceId}
    {cls level : Class} {name : String} {closure : Closure}
    (h : σ.Receives past scope receiver cls level name closure) (retains : σ.Retains σ') :
    σ'.Receives past scope receiver cls level name closure where
  «class» := retains.class _ _ h.class
  above := h.above
  own := h.own
  enclosing :=
    (retains.enclosing scope (Scopes.lt_size_of_enclosing? h.enclosing)).trans h.enclosing
  opened := h.opened

/-- A store with a new scope that binds one name. -/
def Store.opened (σ : Store) (enclosing : ScopeId) (name : String) (value : Value) : Store :=
  ⟨(σ.scopes.add (some enclosing)).2.define σ.scopes.all.size name value, σ.heap⟩

/-- The links of a store with a new scope. -/
theorem Store.enclosing?_opened (σ : Store) (enclosing : ScopeId) (name : String) (value : Value)
    (scope : ScopeId) : (σ.opened enclosing name value).scopes.enclosing? scope =
      if scope = σ.scopes.all.size then some enclosing else σ.scopes.enclosing? scope := by
  rw [opened, Scopes.enclosing?_define, Scopes.enclosing?_add]

/-- The new scope binds the name that it has been made for, and nothing else. -/
theorem Store.get?_opened (σ : Store) (enclosing : ScopeId) (name : String) (value : Value)
    (scope : ScopeId) (other : String) :
    (σ.opened enclosing name value).scopes.get? scope other =
      if scope = σ.scopes.all.size ∧ other = name then some value
      else σ.scopes.get? scope other := by
  rw [opened, Scopes.get?_define, Scopes.get?_add, Scopes.size_add]
  by_cases hnew : scope = σ.scopes.all.size
  · by_cases hname : other = name
    · simp [hnew, hname]
    · simp [hnew, hname, Ne.symm hname]
  · simp [hnew, Ne.symm hnew]

theorem Scopes.get?_size (scopes : Scopes Value) (name : String) :
    scopes.get? scopes.all.size name = none := by
  simp only [get?, Array.getElem?_eq_none (Nat.le_refl _), Option.bind_none]

namespace Store.Retains

/-- A new scope changes nothing about those that are there. -/
theorem newScope (σ : Store) (enclosing : ScopeId) :
    σ.Retains ⟨(σ.scopes.add (some enclosing)).2, σ.heap⟩ where
  size := by
    rw [Scopes.size_add]
    omega
  enclosing scope lt := by rw [Scopes.enclosing?_add, if_neg (Nat.ne_of_lt lt)]
  reserved scope name _ _ := Scopes.get?_add ..
  sealed scope name other _ _ := Scopes.get?_add ..
  «class» _ _ h := h

/-- Ordinary names are bound in scopes that bind ordinary names. -/
theorem define (σ : Store) {scope : ScopeId} {name : String} (ordinary : Ordinary name)
    (plain : ∀ other, σ.scopes.binds scope other → Ordinary other) (value : Value) :
    σ.Retains ⟨σ.scopes.define scope name value, σ.heap⟩ where
  size := Nat.le_of_eq (Scopes.size_define ..).symm
  enclosing other _ := Scopes.enclosing?_define ..
  reserved other name' _ reserved := by
    rw [Scopes.get?_define, if_neg]
    rintro ⟨-, rfl, -⟩
    exact reserved ordinary
  sealed other name' _ reserved binds := by
    rw [Scopes.get?_define, if_neg]
    rintro ⟨rfl, -, -⟩
    exact reserved (plain name' binds)
  «class» _ _ h := h

/-- Nor does it if it binds a name at once. -/
theorem opened (σ : Store) (enclosing : ScopeId) (name : String) (value : Value) :
    σ.Retains (σ.opened enclosing name value) where
  size := by
    rw [Store.opened, Scopes.size_define, Scopes.size_add]
    omega
  enclosing scope lt := by rw [Store.enclosing?_opened, if_neg (Nat.ne_of_lt lt)]
  reserved scope other lt _ := by
    rw [Store.get?_opened, if_neg fun h => Nat.ne_of_lt lt h.1]
  sealed scope other other' _ binds := by
    rw [Store.get?_opened, if_neg]
    rintro ⟨rfl, -⟩
    rw [Scopes.binds, Scopes.get?_size] at binds
    cases binds
  «class» _ _ h := h

end Store.Retains

namespace Store.Anchored

/-- What `this` has been bound to stays a receiver. -/
theorem received {σ' : Store} (h : σ.Anchored past) (retains : σ.Retains σ') {scope : ScopeId}
    {value : Value} (found : σ.scopes.get? scope "this" = some value) :
    ∃ receiver cls level name closure, value = .inst receiver ∧
      σ'.Receives past scope receiver cls level name closure := by
  obtain ⟨receiver, cls, level, name, closure, same, receives⟩ := h.receivers scope value found
  exact ⟨receiver, cls, level, name, closure, same, receives.mono retains⟩

/-- A scope is made for something that is not a method, or for a call of one. -/
theorem newScope (h : σ.Anchored past) {enclosing : ScopeId}
    (lt : enclosing < σ.scopes.all.size)
    (call : ∀ receiver, σ.scopes.get? enclosing "this" = some (.inst receiver) →
      ∃ closure, past.Invokes σ.scopes.all.size receiver closure ∧ closure.scope = enclosing) :
    Store.Anchored past ⟨(σ.scopes.add (some enclosing)).2, σ.heap⟩ := by
  have retains := Store.Retains.newScope σ enclosing
  refine {
    values := ?_
    linked := fun scope next link => ?_
    alone := fun scope name other reserved binds binds' => ?_
    receivers := fun scope value found => ?_
    calls := fun inner scope receiver link found => ?_ }
  · refine Store.holds_scopes (fun value held => (h.values value held).mono retains)
      fun scope name value found => ?_
    rw [Scopes.get?_add] at found
    exact (h.values value (.bound found)).mono retains
  · rw [Scopes.enclosing?_add] at link
    rw [Scopes.size_add]
    split at link
    · cases link
      exact Nat.lt_succ_of_lt lt
    · exact Nat.lt_succ_of_lt (h.linked scope next link)
  · rw [Scopes.binds_add] at binds binds'
    exact h.alone scope name other reserved binds binds'
  · rw [Scopes.get?_add] at found
    exact h.received retains found
  · rw [Scopes.get?_add] at found
    rw [Scopes.enclosing?_add] at link
    split at link
    · rename_i hnew
      cases link
      rw [hnew]
      exact call receiver found
    · exact h.calls inner scope receiver link found

/-- An ordinary name is bound in a scope of ordinary names. -/
theorem define (h : σ.Anchored past) {scope : ScopeId} {name : String} {value : Value}
    (ordinary : Ordinary name) (plain : ∀ other, σ.scopes.binds scope other → Ordinary other)
    (anchored : value.Anchored past σ.scopes) :
    Store.Anchored past ⟨σ.scopes.define scope name value, σ.heap⟩ := by
  have retains := Store.Retains.define σ ordinary plain value
  have same : ∀ other, (σ.scopes.define scope name value).get? other "this" =
      σ.scopes.get? other "this" := by
    intro other
    rw [Scopes.get?_define, if_neg]
    rintro ⟨-, hname, -⟩
    exact ordinary.1 hname
  refine {
    values := ?_
    linked := fun other next link => ?_
    alone := fun other name' name'' reserved binds binds' => ?_
    receivers := fun other found hfound => ?_
    calls := fun call other receiver link found => ?_ }
  · refine Store.holds_scopes (fun value held => (h.values value held).mono retains)
      fun other name' found hfound => ?_
    rw [Scopes.get?_define] at hfound
    split at hfound
    · cases hfound
      exact anchored.mono retains
    · exact (h.values found (.bound hfound)).mono retains
  · rw [Scopes.enclosing?_define] at link
    rw [Scopes.size_define]
    exact h.linked other next link
  · simp only [Scopes.binds_define, Bool.or_eq_true, decide_eq_true_eq] at binds binds'
    rcases binds with ⟨-, rfl, -⟩ | binds
    · exact absurd ordinary reserved
    · rcases binds' with ⟨rfl, -, -⟩ | binds'
      · exact absurd (plain name' binds) reserved
      · exact h.alone other name' name'' reserved binds binds'
  · rw [same] at hfound
    exact h.received retains hfound
  · rw [same] at found
    rw [Scopes.enclosing?_define] at link
    exact h.calls call other receiver link found

/-- A scope is made that binds one name, in a scope that is not that of a receiver. -/
theorem opened (h : σ.Anchored past) {enclosing : ScopeId} {name : String} {value : Value}
    (lt : enclosing < σ.scopes.all.size) (outside : σ.scopes.get? enclosing "this" = none)
    (anchored : value.Anchored past σ.scopes)
    (this : name = "this" → ∃ receiver cls level method closure, value = .inst receiver ∧
      (σ.opened enclosing name value).Receives past σ.scopes.all.size receiver cls level method
        closure) :
    (σ.opened enclosing name value).Anchored past := by
  have retains := Store.Retains.opened σ enclosing name value
  have size : (σ.opened enclosing name value).scopes.all.size = σ.scopes.all.size + 1 := by
    rw [Store.opened, Scopes.size_define, Scopes.size_add]
  refine {
    values := ?_
    linked := fun scope next link => ?_
    alone := fun scope reserved other hreserved binds binds' => ?_
    receivers := fun scope found hfound => ?_
    calls := fun call scope receiver link found => ?_ }
  · refine Store.holds_scopes (fun value held => (h.values value held).mono retains)
      fun scope other found hfound => ?_
    change (σ.opened enclosing name value).scopes.get? scope other = some found at hfound
    rw [Store.get?_opened] at hfound
    split at hfound
    · cases hfound
      exact anchored.mono retains
    · exact (h.values found (.bound hfound)).mono retains
  · rw [Store.enclosing?_opened] at link
    rw [size]
    split at link
    · cases link
      exact Nat.lt_succ_of_lt lt
    · exact Nat.lt_succ_of_lt (h.linked scope next link)
  · rw [Scopes.binds, Store.get?_opened] at binds binds'
    by_cases hnew : scope = σ.scopes.all.size
    · subst hnew
      simp only [true_and, Scopes.get?_size] at binds binds'
      split at binds
      · split at binds'
        · rename_i first second
          exact second.trans first.symm
        · cases binds'
      · cases binds
    · rw [if_neg fun h => hnew h.1] at binds binds'
      exact h.alone scope reserved other hreserved binds binds'
  · rw [Store.get?_opened] at hfound
    split at hfound
    · rename_i hnew
      cases hfound
      rw [hnew.1]
      exact this hnew.2.symm
    · exact h.received retains hfound
  · rw [Store.enclosing?_opened] at link
    rw [Store.get?_opened] at found
    -- nothing lies in the new scope yet
    have old : scope < σ.scopes.all.size := by
      split at link
      · cases link
        exact lt
      · exact h.linked call scope link
    rw [if_neg fun h => Nat.ne_of_lt old h.1] at found
    split at link
    · cases link
      cases outside.symm.trans found
    · exact h.calls call scope receiver link found

/-! ## 6. Changes of the heap

Scopes are not touched, and instances keep their classes. -/

/-- A heap may change if all that it holds is anchored, and no class of an instance is lost. -/
theorem setHeap (h : σ.Anchored past) {heap : Heap}
    (kept : ∀ id cls, σ.heap.class? id = some cls → heap.class? id = some cls)
    (values : ∀ value, Store.Holds ⟨σ.scopes, heap⟩ value → value.Anchored past σ.scopes) :
    Store.Anchored past ⟨σ.scopes, heap⟩ where
  values := values
  linked := h.linked
  alone := h.alone
  receivers _ _ found := h.received (.of_heap kept) found
  calls := h.calls

end Store.Anchored

end Changes

/-! ## 7. What `super` finds -/

/-- One link more is followed from the scope that has been reached. -/
theorem Scopes.ancestor?_succ {α : Type} (scopes : Scopes α) (scope : ScopeId) (hops : Nat) :
    scopes.ancestor? scope (hops + 1) = (scopes.ancestor? scope hops).bind scopes.enclosing? := by
  induction hops generalizing scope with
  | zero => cases h : scopes.enclosing? scope <;> simp [ancestor?, h]
  | succ hops ih =>
    rw [ancestor?]
    cases h : scopes.enclosing? scope with
    | none => simp [ancestor?, h]
    | some outer =>
      dsimp only
      rw [ih outer]
      simp [ancestor?, h]

/-- The class that `super` finds is the one above that of the method, whose receiver `this` finds
one scope nearer. -/
theorem State.Anchored.super {past : Past} {s : State} (anchored : s.Anchored past) {inner : Nat}
    {superclass : Class} {receiver : InstanceId}
    (hsuper : s.scopes.getAt? s.scope (inner + 1) "super" = some (.callable (.class superclass)))
    (hthis : s.scopes.getAt? s.scope inner "this" = some (.inst receiver)) :
    ∃ scope cls info name closure, s.scopes.ancestor? s.scope inner = some scope ∧
      s.scopes.get? scope "this" = some (.inst receiver) ∧
      s.store.Receives past scope receiver cls (.derived info superclass) name closure := by
  simp only [Scopes.getAt?, Option.bind_eq_some_iff] at hsuper hthis
  obtain ⟨superScope, atSuper, hsuper⟩ := hsuper
  obtain ⟨scope, atThis, hthis⟩ := hthis
  obtain ⟨receiver', cls, level, name, closure, heq, receives⟩ :=
    anchored.store.receivers scope _ hthis
  cases heq
  rw [Scopes.ancestor?_succ, atThis, Option.bind_some] at atSuper
  obtain rfl := Option.some.inj (receives.enclosing.symm.trans atSuper)
  have kept := anchored.store.values _ (.class receives.class) level receives.above name closure
    receives.own
  have known := kept.super
  cases level with
  | builtin kind => cases known.symm.trans hsuper
  | base info => cases known.symm.trans hsuper
  | derived info above =>
    cases known.1.symm.trans hsuper
    exact ⟨scope, cls, info, name, closure, atThis, hthis, receives⟩

end Lox
