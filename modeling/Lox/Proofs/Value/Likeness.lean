/-
# Values that are alike

Values are alike if they differ in nothing but the declarations of functions, and these are alike.
Closures that are alike cannot be told apart without calling them, so this is a kinship
(`Likeness.kinship`), and what is known of values that are kin is known of values that are alike.
-/
import Lox.Proofs.Syntax.Likeness
import Lox.Proofs.Value.Kinship

namespace Lox

variable {m m' : Likeness}

/-! ## 1. Values

Code is kept in closures, so that is where ids and lines are found in values. -/

/-- Closures of declarations that are alike. -/
structure Closure.Alike (m : Likeness) (c c' : Closure) : Prop where
  stamp : c.stamp = c'.stamp
  declaration : c.declaration.Alike m c'.declaration
  scope : c.scope = c'.scope
  isInitializer : c.isInitializer = c'.isInitializer

/-- Methods that are alike. -/
inductive Method.Alike (m : Likeness) : Method → Method → Prop
  | builtin (method : BuiltinMethod) : Alike m (.builtin method) (.builtin method)
  | declared {c c' : Closure} (closure : c.Alike m c') : Alike m (.declared c) (.declared c')

/-- Class declarations with methods that are alike. -/
structure ClassInfo.Alike (m : Likeness) (info info' : ClassInfo) : Prop where
  stamp : info.stamp = info'.stamp
  name : info.name = info'.name
  methods : info.methods.Rel (Closure.Alike m) info'.methods

/-- Classes that are alike all along their superclasses. -/
inductive Class.Alike (m : Likeness) : Class → Class → Prop
  | builtin (kind : BuiltinClass) : Alike m (.builtin kind) (.builtin kind)
  | base {info info' : ClassInfo} (declared : info.Alike m info') :
      Alike m (.base info) (.base info')
  | derived {info info' : ClassInfo} {cls cls' : Class} (declared : info.Alike m info')
      (superclass : cls.Alike m cls') : Alike m (.derived info cls) (.derived info' cls')

/-- Methods of one receiver that are alike. -/
structure BoundMethod.Alike (m : Likeness) (b b' : BoundMethod) : Prop where
  receiver : b.receiver = b'.receiver
  method : b.method.Alike m b'.method

/-- Callables that are alike. -/
inductive Callable.Alike (m : Likeness) : Callable → Callable → Prop
  | builtin (function : BuiltinFunction) : Alike m (.builtin function) (.builtin function)
  | closure {c c' : Closure} (h : c.Alike m c') : Alike m (.closure c) (.closure c')
  | bound {b b' : BoundMethod} (h : b.Alike m b') : Alike m (.bound b) (.bound b')
  | class {cls cls' : Class} (h : cls.Alike m cls') : Alike m (.class cls) (.class cls')

/-- Values that are alike. -/
inductive Value.Alike (m : Likeness) : Value → Value → Prop
  | nil : Alike m .nil .nil
  | boolean (value : Bool) : Alike m (.boolean value) (.boolean value)
  | number (value : Float) : Alike m (.number value) (.number value)
  | string (value : String) : Alike m (.string value) (.string value)
  | callable {c c' : Callable} (h : c.Alike m c') : Alike m (.callable c) (.callable c')
  | inst (id : InstanceId) : Alike m (.inst id) (.inst id)

/-! ## 2. The heap

Place by place, as for values. -/

/-- Instances that are alike. -/
structure Instance.Alike (m : Likeness) (i i' : Instance) : Prop where
  cls : i.cls.Alike m i'.cls
  fields : i.fields.Rel (Value.Alike m) i'.fields
  payload : i.payload = i'.payload

/-- Heaps that are alike place by place. -/
structure Heap.Alike (m : Likeness) (h h' : Heap) : Prop where
  instances : ArrayRel (Instance.Alike m) h.instances h'.instances
  storages : ArrayRel (ArrayRel (Value.Alike m)) h.storages h'.storages
  nodes : h.nodes.Rel (Value.Alike m) h'.nodes

/-! ## 3. Likeness is a kinship

Closures that are alike have the same name, the same number of parameters and the same stamp. -/

/-- Closures that are alike may stand for each other. -/
def Likeness.kinship (m : Likeness) : Kinship where
  closures := Closure.Alike m
  methods := Closure.Alike m
  twin like := ⟨like.stamp, like.declaration.name.text, like.declaration.params.length_eq⟩
  twin_method like := ⟨like.stamp, like.declaration.name.text, like.declaration.params.length_eq⟩

/-- Likeness is kinship, one kind of value after the other. -/
theorem Method.alike_eq (m : Likeness) : Method.Alike m = Method.Rel (Closure.Alike m) := by
  funext a a'
  refine propext ⟨fun like => ?_, fun kin => ?_⟩
  · cases like with
    | builtin method => exact .builtin method
    | declared closure => exact .declared closure
  · cases kin with
    | builtin method => exact .builtin method
    | declared closure => exact .declared closure

theorem ClassInfo.alike_eq (m : Likeness) : ClassInfo.Alike m = ClassInfo.Kin m.kinship := by
  funext info info'
  exact propext ⟨fun like => ⟨like.stamp, like.name, like.methods⟩,
    fun kin => ⟨kin.stamp, kin.name, kin.methods⟩⟩

/-- So it is along the superclasses. -/
theorem Class.alike_eq (m : Likeness) : Class.Alike m = Class.Kin m.kinship := by
  funext cls cls'
  refine propext ⟨fun like => ?_, fun kin => ?_⟩
  · induction like with
    | builtin kind => exact .builtin kind
    | base declared => exact .base (ClassInfo.alike_eq m ▸ declared)
    | derived declared _ ih => exact .derived (ClassInfo.alike_eq m ▸ declared) ih
  · induction kin with
    | builtin kind => exact .builtin kind
    | base declared => exact .base (ClassInfo.alike_eq m ▸ declared)
    | derived declared _ ih => exact .derived (ClassInfo.alike_eq m ▸ declared) ih

theorem BoundMethod.alike_eq (m : Likeness) : BoundMethod.Alike m = BoundMethod.Kin m.kinship := by
  funext b b'
  exact propext ⟨fun like => ⟨like.receiver, Method.alike_eq m ▸ like.method⟩,
    fun kin => ⟨kin.receiver, Method.alike_eq m ▸ kin.method⟩⟩

theorem Callable.alike_eq (m : Likeness) : Callable.Alike m = Callable.Kin m.kinship := by
  funext c c'
  refine propext ⟨fun like => ?_, fun kin => ?_⟩
  · cases like with
    | builtin function => exact .builtin function
    | closure h => exact .closure h
    | bound h => exact .bound (BoundMethod.alike_eq m ▸ h)
    | «class» h => exact .class (Class.alike_eq m ▸ h)
  · cases kin with
    | builtin function => exact .builtin function
    | closure h => exact .closure h
    | bound h => exact .bound (BoundMethod.alike_eq m ▸ h)
    | «class» h => exact .class (Class.alike_eq m ▸ h)

/-- Values are alike just if they are kin. -/
theorem Value.alike_eq (m : Likeness) : Value.Alike m = Value.Kin m.kinship := by
  funext v v'
  refine propext ⟨fun like => ?_, fun kin => ?_⟩
  · cases like with
    | callable h => exact .callable (Callable.alike_eq m ▸ h)
    | nil => exact .nil
    | boolean value => exact .boolean value
    | number value => exact .number value
    | string value => exact .string value
    | inst id => exact .inst id
  · cases kin with
    | callable h => exact .callable (Callable.alike_eq m ▸ h)
    | nil => exact .nil
    | boolean value => exact .boolean value
    | number value => exact .number value
    | string value => exact .string value
    | inst id => exact .inst id

theorem Instance.alike_eq (m : Likeness) : Instance.Alike m = Instance.Kin m.kinship := by
  funext i i'
  exact propext
    ⟨fun like => ⟨Class.alike_eq m ▸ like.cls, Value.alike_eq m ▸ like.fields, like.payload⟩,
      fun kin => ⟨Class.alike_eq m ▸ kin.cls, Value.alike_eq m ▸ kin.fields, kin.payload⟩⟩

/-- Heaps are alike just if they are kin. -/
theorem Heap.alike_eq (m : Likeness) : Heap.Alike m = Heap.Kin m.kinship := by
  funext h h'
  exact propext
    ⟨fun like => ⟨Instance.alike_eq m ▸ like.instances, Value.alike_eq m ▸ like.storages,
        Value.alike_eq m ▸ like.nodes⟩,
      fun kin => ⟨Instance.alike_eq m ▸ kin.instances, Value.alike_eq m ▸ kin.storages,
        Value.alike_eq m ▸ kin.nodes⟩⟩

/-- The value of a literal is the same wherever the literal stands. -/
theorem Value.Alike.literal (value : Literal) : value.toValue.Alike m value.toValue := by
  rw [Value.alike_eq]
  exact .literal value

/-- What can be found out about kin holds of what is alike. -/
theorem Value.Alike.isTruthy_eq {v v' : Value} (like : v.Alike m v') :
    v.isTruthy = v'.isTruthy := by
  rw [Value.alike_eq] at like
  exact Value.Kin.isTruthy_eq like

theorem Callable.Alike.arity_eq {c c' : Callable} (like : c.Alike m c') : c.arity = c'.arity := by
  rw [Callable.alike_eq] at like
  exact Callable.Kin.arity_eq like

/-- The same method is found at the same place of the chain of superclasses. -/
theorem Class.Alike.findMethod? {cls cls' : Class} (name : String) (like : cls.Alike m cls') :
    Option.Rel (Method.Alike m) (cls.findMethod? name) (cls'.findMethod? name) := by
  rw [Class.alike_eq] at like
  rw [Method.alike_eq]
  exact Class.Kin.findMethod? name like

/-- Empty heaps are alike. -/
theorem Heap.Alike.empty : Heap.empty.Alike m Heap.empty := by
  rw [Heap.alike_eq]
  exact .empty

/-! ## 4. Likenesses that allow more

As a session goes on, more ids come to stand for each other. -/

/-- A wider likeness is a wider kinship. -/
theorem Likeness.kinship_le (le : m.Le m') : m.kinship.Le m'.kinship :=
  have closures : ∀ c c', Closure.Alike m c c' → Closure.Alike m' c c' := fun _ _ like =>
    ⟨like.stamp, like.declaration.mono le, like.scope, like.isInitializer⟩
  ⟨closures, closures⟩

/-- So values that are alike stay so. -/
theorem Value.Alike.mono (le : m.Le m') {v v' : Value} (like : v.Alike m v') : v.Alike m' v' := by
  rw [Value.alike_eq] at like ⊢
  exact Value.Kin.mono (Likeness.kinship_le le) like

theorem Heap.Alike.mono (le : m.Le m') {h h' : Heap} (like : h.Alike m h') : h.Alike m' h' := by
  rw [Heap.alike_eq] at like ⊢
  exact Heap.Kin.mono (Likeness.kinship_le le) like

end Lox
