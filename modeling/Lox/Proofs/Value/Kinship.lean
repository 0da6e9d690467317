/-
# Values that are kin

Two values are kin if they differ in nothing but the closures in them, and these are as a `Kinship`
allows.  The closures that may stand for each other cannot be told apart without calling them, so
everything that a program can find out about a value is the same for both: its text, its type, what
it equals, which methods it has and how many arguments they take.
-/
import Lox.Proofs.Value.Pointwise
import Lox.Value.Text

namespace Lox

/-- Closures that cannot be told apart without calling them. -/
structure Closure.Twin (c c' : Closure) : Prop where
  stamp : c.stamp = c'.stamp
  name : c.name = c'.name
  arity : c.arity = c'.arity

/-- Which closures may stand for which. -/
structure Kinship where
  /-- Functions, and methods that have been bound to an instance. -/
  closures : Closure → Closure → Prop
  /-- Methods as a class holds them. -/
  methods : Closure → Closure → Prop
  twin : ∀ {c c' : Closure}, closures c c' → c.Twin c'
  twin_method : ∀ {c c' : Closure}, methods c c' → c.Twin c'

/-- A kinship allows all that another one allows. -/
structure Kinship.Le (k k' : Kinship) : Prop where
  closures : ∀ c c', k.closures c c' → k'.closures c c'
  methods : ∀ c c', k.methods c c' → k'.methods c c'

variable {k k' : Kinship}

/-! ## 1. Values

Closures may be replaced by others, as long as name, number of parameters and kind are the same.
Everything else in a value stays. -/

/-- Methods with the closures that some relation allows. -/
inductive Method.Rel (R : Closure → Closure → Prop) : Method → Method → Prop
  | builtin (method : BuiltinMethod) : Rel R (.builtin method) (.builtin method)
  | declared {c c' : Closure} (closure : R c c') : Rel R (.declared c) (.declared c')

/-- Class declarations with methods that are kin. -/
structure ClassInfo.Kin (k : Kinship) (info info' : ClassInfo) : Prop where
  stamp : info.stamp = info'.stamp
  name : info.name = info'.name
  methods : info.methods.Rel k.methods info'.methods

/-- Classes that are kin all along their superclasses. -/
inductive Class.Kin (k : Kinship) : Class → Class → Prop
  | builtin (kind : BuiltinClass) : Kin k (.builtin kind) (.builtin kind)
  | base {info info' : ClassInfo} (declared : info.Kin k info') : Kin k (.base info) (.base info')
  | derived {info info' : ClassInfo} {cls cls' : Class} (declared : info.Kin k info')
      (superclass : cls.Kin k cls') : Kin k (.derived info cls) (.derived info' cls')

/-- Methods of one receiver that are kin. -/
structure BoundMethod.Kin (k : Kinship) (b b' : BoundMethod) : Prop where
  receiver : b.receiver = b'.receiver
  method : b.method.Rel k.closures b'.method

/-- Callables that are kin. -/
inductive Callable.Kin (k : Kinship) : Callable → Callable → Prop
  | builtin (function : BuiltinFunction) : Kin k (.builtin function) (.builtin function)
  | closure {c c' : Closure} (h : k.closures c c') : Kin k (.closure c) (.closure c')
  | bound {b b' : BoundMethod} (h : b.Kin k b') : Kin k (.bound b) (.bound b')
  | class {cls cls' : Class} (h : cls.Kin k cls') : Kin k (.class cls) (.class cls')

/-- Values that are kin. -/
inductive Value.Kin (k : Kinship) : Value → Value → Prop
  | nil : Kin k .nil .nil
  | boolean (value : Bool) : Kin k (.boolean value) (.boolean value)
  | number (value : Float) : Kin k (.number value) (.number value)
  | string (value : String) : Kin k (.string value) (.string value)
  | callable {c c' : Callable} (h : c.Kin k c') : Kin k (.callable c) (.callable c')
  | inst (id : InstanceId) : Kin k (.inst id) (.inst id)

/-- The value of a literal is the same wherever the literal stands. -/
theorem Value.Kin.literal (value : Literal) : value.toValue.Kin k value.toValue := by
  cases value with
  | nil => exact .nil
  | boolean value => exact .boolean value
  | number value => exact .number value
  | string value => exact .string value

/-! ## 2. What can be found out about a value

Each of these functions sees of a closure its name, its number of parameters or its stamp, and the
kinship keeps these. -/

namespace Method.Rel

variable {R S : Closure → Closure → Prop} {a a' b b' : Method}

/-- Methods that are related stay so in a wider sense. -/
theorem imp (h : a.Rel R a') (imp : ∀ c c', R c c' → S c c') : a.Rel S a' := by
  cases h with
  | builtin method => exact .builtin method
  | declared closure => exact .declared (imp _ _ closure)

variable (twin : ∀ {c c' : Closure}, R c c' → c.Twin c')

include twin

/-- Methods that are related have the same name. -/
theorem name_eq (h : a.Rel R a') : a.name = a'.name := by
  cases h with
  | builtin => rfl
  | declared closure => exact (twin closure).name

/-- They take the same number of arguments. -/
theorem arity_eq (h : a.Rel R a') : a.arity = a'.arity := by
  cases h with
  | builtin => rfl
  | declared closure => exact (twin closure).arity

/-- Whether two methods are the same is the same for those that they are related to. -/
theorem same_eq (h : a.Rel R a') (h' : b.Rel R b') : a.same b = a'.same b' := by
  cases h with
  | builtin => cases h' <;> rfl
  | declared closure =>
    cases h' with
    | builtin => rfl
    | declared closure' =>
      simp only [same]
      rw [(twin closure).stamp, (twin closure').stamp]

end Method.Rel

namespace Class.Kin

variable {a a' b b' : Class}

/-- Classes that are kin have the same name. -/
theorem name_eq : a.Kin k a' → a.name = a'.name
  | builtin _ => rfl
  | base declared | derived declared _ => declared.name

theorem isBuiltin_eq : a.Kin k a' → a.isBuiltin = a'.isBuiltin
  | builtin _ | base _ | derived _ _ => rfl

/-- Classes are told apart by their stamps, which are the same. -/
theorem same_eq (h : a.Kin k a') (h' : b.Kin k b') : a.same b = a'.same b' := by
  cases h with
  | builtin => cases h' <;> rfl
  | base declared =>
    cases h' with
    | base declared' =>
      simp only [same]
      rw [declared.stamp, declared'.stamp]
    | _ => rfl
  | derived declared =>
    cases h' with
    | derived declared' =>
      simp only [same]
      rw [declared.stamp, declared'.stamp]
    | _ => rfl

/-- The same method is found at the same place of the chain of superclasses. -/
theorem findMethod? (name : String) (h : a.Kin k a') :
    Option.Rel (Method.Rel k.methods) (a.findMethod? name) (a'.findMethod? name) := by
  induction h with
  | builtin kind =>
    simp only [Class.findMethod?]
    cases kind.method? name with
    | none => exact .none
    | some method => exact .some (.builtin method)
  | base declared => exact rel_map (declared.methods.get? name) fun _ _ closure => .declared closure
  | derived declared superclass ih =>
    simp only [Class.findMethod?]
    rcases rel_cases (declared.methods.get? name) with
      ⟨left, right⟩ | ⟨closure, closure', left, right, kin⟩
    · rw [left, right]
      exact ih
    · rw [left, right]
      exact .some (.declared kin)

/-- A class takes as many arguments as its initializer. -/
theorem arity_eq (h : a.Kin k a') : a.arity = a'.arity := by
  unfold arity
  rcases rel_cases (h.findMethod? initializerName) with
    ⟨left, right⟩ | ⟨method, method', left, right, kin⟩
  · rw [left, right]
  · rw [left, right]
    exact kin.arity_eq k.twin_method

end Class.Kin

/-- Bound methods are the same if receiver and method are. -/
theorem BoundMethod.Kin.same_eq {a a' b b' : BoundMethod} (h : a.Kin k a')
    (h' : b.Kin k b') : a.same b = a'.same b' := by
  unfold same
  rw [h.method.same_eq k.twin h'.method, h.receiver, h'.receiver]

namespace Callable.Kin

variable {a a' b b' : Callable}

theorem arity_eq : a.Kin k a' → a.arity = a'.arity
  | builtin _ => rfl
  | closure h => (k.twin h).arity
  | bound h => h.method.arity_eq k.twin
  | .class h => h.arity_eq

/-- The text of a callable is made of names. -/
theorem text_eq (h : a.Kin k a') : a.text = a'.text := by
  cases h with
  | builtin => rfl
  | closure h =>
    simp only [text]
    rw [(k.twin h).name]
  | bound h =>
    simp only [text]
    rw [h.method.name_eq k.twin]
  | «class» h => exact h.name_eq

theorem same_eq (h : a.Kin k a') (h' : b.Kin k b') : a.same b = a'.same b' := by
  cases h with
  | builtin => cases h' <;> rfl
  | closure h =>
    cases h' with
    | closure h' =>
      simp only [same]
      rw [(k.twin h).stamp, (k.twin h').stamp]
    | _ => rfl
  | bound h =>
    cases h' with
    | bound h' => exact h.same_eq h'
    | _ => rfl
  | «class» h =>
    cases h' with
    | «class» h' => exact h.same_eq h'
    | _ => rfl

end Callable.Kin

namespace Value.Kin

variable {a a' b b' : Value}

/-- Equality looks at data, at instances and at callables, all of which are the same for values that
are kin. -/
theorem equals_eq (h : a.Kin k a') (h' : b.Kin k b') : a.equals b = a'.equals b' := by
  cases h with
  | callable h =>
    cases h' with
    | callable h' => exact h.same_eq h'
    | _ => rfl
  | _ => cases h' <;> rfl

/-- Only `nil` and `false` are not true. -/
theorem isTruthy_eq (h : a.Kin k a') : a.isTruthy = a'.isTruthy := by
  cases h <;> rfl

end Value.Kin

/-! ## 3. The heap

Heaps that are kin have the same instances, storages and nodes, with values that are kin in them. -/

/-- Instances that are kin. -/
structure Instance.Kin (k : Kinship) (i i' : Instance) : Prop where
  cls : i.cls.Kin k i'.cls
  fields : i.fields.Rel (Value.Kin k) i'.fields
  payload : i.payload = i'.payload

/-- Heaps that are kin place by place. -/
structure Heap.Kin (k : Kinship) (h h' : Heap) : Prop where
  instances : ArrayRel (Instance.Kin k) h.instances h'.instances
  storages : ArrayRel (ArrayRel (Value.Kin k)) h.storages h'.storages
  nodes : h.nodes.Rel (Value.Kin k) h'.nodes

/-- Collections that are written in the same way, with elements that are kin. -/
structure Listing.Kin (k : Kinship) (l l' : Listing) : Prop where
  opening : l.opening = l'.opening
  closing : l.closing = l'.closing
  separator : l.separator = l'.separator
  items : List.Forall₂ (Value.Kin k) l.items l'.items

namespace Heap.Kin

variable {h h' : Heap}

/-- Heaps without instances are kin. -/
theorem empty : Heap.empty.Kin k Heap.empty := ⟨.empty, .empty, ArrayRel.empty⟩

/-! ### Changes -/

/-- A new instance has the same number in both heaps. -/
theorem add (kin : h.Kin k h') {cls cls' : Class} (kinClass : cls.Kin k cls')
    (payload : Option Payload) :
    (h.add cls payload).1 = (h'.add cls' payload).1 ∧
      (h.add cls payload).2.Kin k (h'.add cls' payload).2 :=
  ⟨kin.instances.size_eq, kin.instances.push ⟨kinClass, .empty, rfl⟩, kin.storages,
    kin.nodes⟩

/-- Fields hold values that are kin. -/
theorem setField (kin : h.Kin k h') (id : InstanceId) (name : String) {v v' : Value}
    (value : v.Kin k v') : (h.setField id name v).Kin k (h'.setField id name v') :=
  ⟨kin.instances.modify id fun _ _ inst =>
    ⟨inst.cls, inst.fields.insert name value, inst.payload⟩, kin.storages, kin.nodes⟩

theorem setPayload (kin : h.Kin k h') (id : InstanceId) (payload : Payload) :
    (h.setPayload id payload).Kin k (h'.setPayload id payload) :=
  ⟨kin.instances.modify id fun _ _ inst => ⟨inst.cls, inst.fields, rfl⟩, kin.storages,
    kin.nodes⟩

theorem addStorage (kin : h.Kin k h') {items items' : Array Value}
    (kinItems : ArrayRel (Value.Kin k) items items') :
    (h.addStorage items).1 = (h'.addStorage items').1 ∧
      (h.addStorage items).2.Kin k (h'.addStorage items').2 :=
  ⟨kin.storages.size_eq, kin.instances, kin.storages.push kinItems, kin.nodes⟩

theorem pushItem (kin : h.Kin k h') (storage : StorageId) {v v' : Value}
    (value : v.Kin k v') : (h.pushItem storage v).Kin k (h'.pushItem storage v') :=
  ⟨kin.instances, kin.storages.modify storage fun _ _ items => items.push value, kin.nodes⟩

theorem setItem (kin : h.Kin k h') (storage : StorageId) (index : Nat) {v v' : Value}
    (value : v.Kin k v') : (h.setItem storage index v).Kin k (h'.setItem storage index v') :=
  ⟨kin.instances, kin.storages.modify storage fun _ _ items => items.setIfInBounds index value,
    kin.nodes⟩

/-- Nodes of lists hold values that are kin. -/
theorem setNodes (kin : h.Kin k h') {nodes nodes' : Nodes Value}
    (kinNodes : nodes.Rel (Value.Kin k) nodes') :
    Heap.Kin k { h with nodes := nodes } { h' with nodes := nodes' } :=
  ⟨kin.instances, kin.storages, kinNodes⟩

/-! ### Looks -/

/-- Instances are found in both or in neither. -/
theorem class? (kin : h.Kin k h') (id : InstanceId) :
    Option.Rel (Class.Kin k) (h.class? id) (h'.class? id) :=
  rel_map (kin.instances id) fun _ _ inst => inst.cls

theorem field? (kin : h.Kin k h') (id : InstanceId) (name : String) :
    Option.Rel (Value.Kin k) (h.field? id name) (h'.field? id name) :=
  rel_bind (kin.instances id) fun _ _ inst => inst.fields.get? name

/-- Payloads have no values in them, so they are the same. -/
theorem payload?_eq (kin : h.Kin k h') (id : InstanceId) : h.payload? id = h'.payload? id := by
  unfold payload?
  rcases rel_cases (kin.instances id) with ⟨left, right⟩ | ⟨inst, inst', left, right, same⟩
  · rw [left, right]
  · rw [left, right]
    exact same.payload

theorem iterator?_eq (kin : h.Kin k h') (id : InstanceId) :
    h.iterator? id = h'.iterator? id := by
  unfold iterator?
  rw [kin.payload?_eq]

theorem storageSize_eq (kin : h.Kin k h') (storage : StorageId) :
    h.storageSize storage = h'.storageSize storage := by
  unfold storageSize
  rcases rel_cases (kin.storages storage) with ⟨left, right⟩ | ⟨items, items', left, right, same⟩
  · rw [left, right]
  · rw [left, right]
    exact same.size_eq

theorem item? (kin : h.Kin k h') (storage : StorageId) (index : Nat) :
    Option.Rel (Value.Kin k) (h.item? storage index) (h'.item? storage index) :=
  rel_bind (kin.storages storage) fun _ _ items => items index

/-- Whether an iterator has items left depends on sizes only. -/
theorem hasItems_eq (kin : h.Kin k h') (iterator : Iterator) :
    h.hasItems iterator = h'.hasItems iterator := by
  cases iterator with
  | list storage position =>
    simp only [hasItems]
    rw [kin.storageSize_eq]
  | linkedList chain => rfl
  | range current last step => rfl

/-- The items at hand are kin. -/
theorem current? (kin : h.Kin k h') (iterator : Iterator) :
    Option.Rel (Value.Kin k) (h.current? iterator) (h'.current? iterator) := by
  unfold Heap.current?
  rw [kin.hasItems_eq]
  split
  · cases iterator with
    | list storage position => exact kin.item? storage position
    | linkedList chain => exact kin.nodes.first? chain
    | range current last step => exact .some (.number current)
  · exact .none

/-- Where an iterator goes does not depend on the items. -/
theorem advance_eq (kin : h.Kin k h') (iterator : Iterator) :
    h.advance iterator = h'.advance iterator := by
  unfold advance
  rw [kin.hasItems_eq]
  split
  · cases iterator with
    | linkedList chain =>
      dsimp only
      rw [kin.nodes.tail_eq]
    | _ => rfl
  · rfl

/-! ### Texts -/

/-- Collections that are written alike, with elements that are kin. -/
theorem listing? (kin : h.Kin k h') (id : InstanceId) :
    Option.Rel (Listing.Kin k) (h.listing? id) (h'.listing? id) := by
  unfold Heap.listing?
  rw [kin.payload?_eq]
  split
  · rename_i storage _
    refine .some ⟨rfl, rfl, rfl, ?_⟩
    rcases rel_cases (kin.storages storage) with ⟨left, right⟩ | ⟨items, items', left, right, same⟩
    · rw [left, right]
      exact .nil
    · rw [left, right]
      exact same.toList
  · exact .some ⟨rfl, rfl, rfl, kin.nodes.toList _⟩
  · exact .none

theorem plainText_eq (kin : h.Kin k h') (id : InstanceId) :
    h.plainText id = h'.plainText id := by
  unfold plainText
  rcases rel_cases (kin.class? id) with ⟨left, right⟩ | ⟨cls, cls', left, right, same⟩
  · rw [left, right]
  · rw [left, right, Option.map_some, Option.map_some, same.name_eq]

/-- The text of a value, by induction on how deeply collections are nested. -/
theorem textWithin_eq (kin : h.Kin k h') (depth : Nat) (opened : List InstanceId)
    {v v' : Value} (value : v.Kin k v') :
    h.textWithin depth opened v = h'.textWithin depth opened v' := by
  induction depth generalizing opened v v' with
  | zero =>
    cases value with
    | inst id =>
      unfold textWithin
      rcases rel_cases (kin.listing? id) with
        ⟨left, right⟩ | ⟨listing, listing', left, right, same⟩
      · rw [left, right]
        exact kin.plainText_eq id
      · rw [left, right]
        dsimp only
        split
        · simp only [Listing.elided, same.opening, same.closing]
        · rfl
    | callable h => exact h.text_eq
    | _ => rfl
  | succ depth ih =>
    cases value with
    | inst id =>
      unfold textWithin
      rcases rel_cases (kin.listing? id) with
        ⟨left, right⟩ | ⟨listing, listing', left, right, same⟩
      · rw [left, right]
        exact kin.plainText_eq id
      · rw [left, right]
        dsimp only
        split
        · simp only [Listing.elided, same.opening, same.closing]
        · have texts : listing.items.map (h.textWithin depth (id :: opened)) =
              listing'.items.map (h'.textWithin depth (id :: opened)) := by
            refine List.forall₂_eq_eq_eq ▸ List.forall₂_map_left_iff.2
              (List.forall₂_map_right_iff.2 (same.items.imp fun _ _ value => ih _ value))
          simp only [Listing.join, same.opening, same.closing, same.separator, texts]
    | callable h => exact h.text_eq
    | _ => rfl

theorem text_eq (kin : h.Kin k h') {v v' : Value} (value : v.Kin k v') :
    h.text v = h'.text v' := by
  unfold text
  rw [kin.instances.size_eq, kin.textWithin_eq _ _ value]

end Heap.Kin

/-! ## 4. Kinships that allow more

As a run goes on, more closures may come to stand for each other. -/

section Mono

variable (le : k.Le k')

include le

theorem ClassInfo.Kin.mono {info info' : ClassInfo} (h : info.Kin k info') : info.Kin k' info' :=
  ⟨h.stamp, h.name, h.methods.imp le.methods⟩

/-- By induction along the superclasses. -/
theorem Class.Kin.mono {cls cls' : Class} (h : cls.Kin k cls') : cls.Kin k' cls' := by
  induction h with
  | builtin kind => exact .builtin kind
  | base declared => exact .base (declared.mono le)
  | derived declared _ ih => exact .derived (declared.mono le) ih

theorem BoundMethod.Kin.mono {b b' : BoundMethod} (h : b.Kin k b') : b.Kin k' b' :=
  ⟨h.receiver, h.method.imp le.closures⟩

theorem Callable.Kin.mono {c c' : Callable} : c.Kin k c' → c.Kin k' c'
  | .builtin function => .builtin function
  | .closure h => .closure (le.closures _ _ h)
  | .bound h => .bound (h.mono le)
  | .class h => .class (h.mono le)

theorem Value.Kin.mono {v v' : Value} : v.Kin k v' → v.Kin k' v'
  | .nil => .nil
  | .boolean value => .boolean value
  | .number value => .number value
  | .string value => .string value
  | .callable h => .callable (h.mono le)
  | .inst id => .inst id

/-- Values that are kin in a smaller kinship are so in a larger one, and so for heaps. -/
theorem Heap.Kin.mono {h h' : Heap} (kin : h.Kin k h') : h.Kin k' h' where
  instances := kin.instances.imp fun _ _ inst =>
    ⟨inst.cls.mono le, inst.fields.imp fun _ _ value => value.mono le, inst.payload⟩
  storages := kin.storages.imp fun _ _ items => items.imp fun _ _ value => value.mono le
  nodes := kin.nodes.imp fun _ _ value => value.mono le

end Mono

end Lox
