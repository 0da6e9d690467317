/-
# What a store holds

Values are kept in scopes, in fields, in lists, in linked lists and, as the class of an instance,
in the heap (`Store.Holds`).  A value in turn may carry closures: a function is one, a bound method
may have one, and a class has those of its methods along the whole chain of its superclasses
(`Value.Carries`).
-/
import Lox.Proofs.Scoping.Store

namespace Lox

/-! ## 1. Classes as chains -/

namespace Class

/-- A class and those above it, from the class up. -/
def chain : Class → List Class
  | builtin kind => [builtin kind]
  | base info => [base info]
  | derived info superclass => derived info superclass :: superclass.chain

/-- The methods that the declaration of a class makes. -/
def methods : Class → Bindings Closure
  | builtin _ => .empty
  | base info | derived info _ => info.methods

end Class

/-! ## 2. Values in a store -/

/-- A value is somewhere in a store. -/
inductive Store.Holds (σ : Store) : Value → Prop where
  | bound {scope : ScopeId} {name : String} {value : Value}
      (found : σ.scopes.get? scope name = some value) : Holds σ value
  | field {id : InstanceId} {name : String} {value : Value}
      (found : σ.heap.field? id name = some value) : Holds σ value
  | item {storage : StorageId} {index : Nat} {value : Value}
      (found : σ.heap.item? storage index = some value) : Holds σ value
  | element {id : NodeId} {node : Node Value}
      (found : σ.heap.nodes.node? id = some node) : Holds σ node.element
  | «class» {id : InstanceId} {cls : Class}
      (found : σ.heap.class? id = some cls) : Holds σ (.callable (.class cls))

/-- A closure is part of a value. -/
inductive Value.Carries : Value → Closure → Prop where
  | closure (closure : Closure) : Carries (.callable (.closure closure)) closure
  | bound (receiver : InstanceId) (closure : Closure) :
      Carries (.callable (.bound ⟨receiver, .declared closure⟩)) closure
  | method {cls level : Class} {name : String} {closure : Closure} (above : level ∈ cls.chain)
      (own : level.methods.get? name = some closure) : Carries (.callable (.class cls)) closure

/-- A closure is part of a value that a store holds. -/
def Store.HoldsClosure (σ : Store) (closure : Closure) : Prop :=
  ∃ value, σ.Holds value ∧ value.Carries closure

/-! ## 3. What is held in a sound store -/

section Sound

variable {past : Past} {σ : Store}

theorem Store.Sound.of_holds (h : σ.Sound past) {value : Value} (held : σ.Holds value) :
    value.Sound past σ := by
  cases held with
  | bound found => exact h.values _ _ _ found
  | field found => exact h.fields _ _ _ found
  | item found => exact h.items _ _ _ found
  | element found => exact h.nodes _ _ found
  | «class» found => exact h.classes _ _ found

/-- The methods of a sound class are sound, those of its superclasses included. -/
theorem Class.Sound.of_mem_chain {cls level : Class} (h : cls.Sound past σ)
    (above : level ∈ cls.chain) {name : String} {closure : Closure}
    (own : level.methods.get? name = some closure) : closure.MethodSound past σ := by
  induction cls with
  | builtin kind =>
    obtain rfl := List.mem_singleton.1 above
    cases own
  | base info =>
    obtain rfl := List.mem_singleton.1 above
    exact h name closure own
  | derived info superclass ih =>
    rcases List.mem_cons.1 above with rfl | above
    · exact h.1 name closure own
    · exact ih h.2 above

/-- The code of a closure in a sound value is known. -/
theorem Value.Sound.knows {value : Value} (h : value.Sound past σ) {closure : Closure}
    (carries : value.Carries closure) :
    ∃ stack, past.Knows (Occurrence.ofFunction stack closure.declaration) := by
  cases carries with
  | closure =>
    obtain ⟨stack, -, -, known⟩ := h
    exact ⟨stack, known⟩
  | bound =>
    obtain ⟨stack, -, -, known⟩ := h
    exact ⟨stack, known⟩
  | method above own =>
    obtain ⟨stack, -, -, known⟩ := Class.Sound.of_mem_chain h above own
    exact ⟨_, known⟩

end Sound

end Lox
