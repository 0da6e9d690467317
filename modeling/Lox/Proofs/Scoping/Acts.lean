/-
# The acts of evaluation keep the state sound

`Eval.Does` says of an act, begun in some state, that it leads to a sound state however it ends,
and what is true of its answer if it has one.  There is one lemma for each act of the scripts; the
built-in methods need to know which class the instance they were read from is of.
-/
import Lox.Proofs.Scoping.Store

namespace Lox

namespace Eval

variable {α β : Type}

/-- An act leads to a sound state, and to a good answer if it has one. -/
def Does (past : Past) (home : Option ScopeId) (x : Eval α) (good : α → State → Prop)
    (s : State) : Prop :=
  Ends (x s) (fun answer s' => s.Leads past home s' ∧ good answer s') fun _ s' => s'.Sound past

namespace Does

variable {past : Past} {home : Option ScopeId} {s : State}

/-! ## 1. Putting acts together

The state goes through sound states, and what one act leads to is where the next one begins. -/

theorem pure {good : α → State → Prop} {value : α} (sound : s.Sound past) (h : good value s) :
    Does past home (Pure.pure value) good s :=
  ⟨.refl sound, h⟩

theorem throw {good : α → State → Prop} (sound : s.Sound past) (interrupt : Interrupt) :
    Does past home (MonadExcept.throw interrupt : Eval α) good s :=
  sound

theorem fail {good : α → State → Prop} (sound : s.Sound past) (cause : RuntimeCause) (line : Nat) :
    Does past home (Eval.fail cause line : Eval α) good s :=
  sound

theorem failBuiltin {good : α → State → Prop} (sound : s.Sound past) (cause : BuiltinCause)
    (line : Nat) : Does past home (Eval.failBuiltin cause line : Eval α) good s :=
  sound

/-- The second act begins in the state that the first one leads to, with an answer that is good
there. -/
theorem bind {x : Eval α} {f : α → Eval β} {good : α → State → Prop} {good' : β → State → Prop}
    (hx : Does past home x good s)
    (hf : ∀ answer s', s.Leads past home s' → good answer s' → Does past home (f answer) good' s') :
    Does past home (x >>= f) good' s := by
  refine Ends.bind (Ends.imp hx (fun answer s' h => ?_) fun _ _ h => h)
  obtain ⟨leads, hgood⟩ := h
  exact Ends.imp (hf answer s' leads hgood) (fun _ _ h => ⟨leads.trans h.1, h.2⟩) fun _ _ h => h

/-- What is shown of an answer may be put in another form, in the state at the end. -/
theorem imp {x : Eval α} {good good' : α → State → Prop} (hx : Does past home x good s)
    (h : ∀ answer s', s.Leads past home s' → good answer s' → good' answer s') :
    Does past home x good' s :=
  Ends.imp hx (fun answer s' hanswer => ⟨hanswer.1, h answer s' hanswer.1 hanswer.2⟩) fun _ _ h => h

/-- An act that begins with a look at the state. -/
theorem get_bind {f : State → Eval β} {good : β → State → Prop} (h : Does past home (f s) good s) :
    Does past home (MonadState.get >>= f) good s :=
  h

/-- An act that only looks at the state, and then another. -/
theorem looks {x : Eval α} {f : α → Eval β} {found : α → Prop} {good : β → State → Prop}
    (hx : Does past home x (fun answer s' => s' = s ∧ found answer) s)
    (hf : ∀ answer, found answer → Does past home (f answer) good s) :
    Does past home (x >>= f) good s := by
  refine hx.bind fun answer s' _ h => ?_
  obtain ⟨rfl, hfound⟩ := h
  exact hf answer hfound

/-- A change of the heap. -/
theorem modifyHeap (sound : s.Sound past) {change : Heap → Heap}
    (kept : ∀ id cls, s.heap.class? id = some cls → (change s.heap).class? id = some cls)
    (changed : Store.Sound past ⟨s.scopes, change s.heap⟩) :
    Does past home (Eval.modifyHeap change) (fun _ _ => True) s :=
  ⟨⟨⟨changed, sound.filed⟩, s.store.grows_heap kept, fun _ _ _ _ h => h⟩, trivial⟩

/-! ## 2. Operators and the console

What these answer with is data, which is sound in every state. -/

/-- Operators answer with data. -/
theorem unary (sound : s.Sound past) (op : UnaryOp) (line : Nat) (operand : Value) :
    Does past home (Eval.unary op line operand) (fun value s' => value.Sound past s'.store) s := by
  unfold Eval.unary
  split
  · exact .pure sound trivial
  · exact .fail sound _ _
  · exact .pure sound trivial

theorem arithmetic (sound : s.Sound past) (op : BinaryOp) (line : Nat) (x y : Float) :
    Does past home (Eval.arithmetic op line x y) (fun value s' => value.Sound past s'.store) s := by
  unfold Eval.arithmetic
  split
  · exact .pure sound trivial
  · exact .pure sound trivial
  · split
    · exact .fail sound _ _
    · exact .pure sound trivial
  all_goals exact .pure sound trivial

/-- Operators answer with data, and leave the state as it was. -/
theorem binary (sound : s.Sound past) (op : BinaryOp) (line : Nat) (left right : Value) :
    Does past home (Eval.binary op line left right) (fun value s' => value.Sound past s'.store)
      s := by
  unfold Eval.binary
  split
  · exact .pure sound trivial
  · exact .pure sound trivial
  · split
    · exact .pure sound trivial
    · exact .pure sound trivial
    · exact .fail sound _ _
  · split
    · exact .arithmetic sound _ _ _ _
    · exact .fail sound _ _

/-- Printing changes nothing that can be unsound. -/
theorem printValue (sound : s.Sound past) (value : Value) (line : Nat) :
    Does past home (Eval.printValue value line) (fun _ _ => True) s := by
  unfold Eval.printValue Does
  dsimp only
  split
  · exact ⟨.of_same sound rfl rfl rfl, trivial⟩
  · exact ⟨sound.store, sound.filed⟩

theorem freshStamp (sound : s.Sound past) :
    Does past home Eval.freshStamp (fun _ _ => True) s :=
  ⟨.of_same sound rfl rfl rfl, trivial⟩

/-! ## 3. Scopes

Scopes hold sound values, and `this` and `super` are bound where methods expect them. -/

/-- A new scope is the next one, and is linked to the given one. -/
theorem newScope (sound : s.Sound past) (enclosing : ScopeId) :
    Does past home (Eval.newScope enclosing) (fun scope s' => scope = s.scopes.all.size ∧
      s'.scopes = (s.scopes.add (some enclosing)).2) s := by
  refine ⟨⟨⟨sound.store.newScope enclosing, sound.filed⟩, s.store.grows_newScope enclosing,
    fun scope name _ _ h => ?_⟩, rfl, rfl⟩
  rwa [← Scopes.binds_add s.scopes (some enclosing)]

/-- Binding a name in a scope, with a value that is sound once it is bound. -/
theorem bindIn (sound : s.Sound past) (scope : ScopeId) {name : String} {value : Value}
    (hvalue : value.Sound past ⟨s.scopes.define scope name value, s.heap⟩)
    (this : name = "this" →
      ∃ id cls, value = .inst id ∧ s.heap.class? id = some cls ∧ cls.isBuiltin = false)
    (super : name = "super" → ∃ cls, value = .callable (.class cls)) :
    Does past (some scope) (Eval.defineIn scope name value) (fun _ s' =>
      s'.store = ⟨s.scopes.define scope name value, s.heap⟩) s := by
  refine ⟨⟨⟨sound.store.define scope hvalue this super, sound.filed⟩,
    s.store.grows_define scope name value, fun other name' _ away h => ?_⟩, rfl⟩
  change (s.scopes.define scope name value).binds other name' at h
  rw [Scopes.binds_define] at h
  simp only [Bool.or_eq_true, decide_eq_true_eq] at h
  rcases h with ⟨rfl, -, -⟩ | h
  · exact absurd rfl away
  · exact h

/-- An ordinary name may be defined in any scope, with a sound value. -/
theorem defineIn (sound : s.Sound past) (scope : ScopeId) {name : String} {value : Value}
    (ordinary : Ordinary name) (hvalue : value.Sound past s.store) :
    Does past (some scope) (Eval.defineIn scope name value) (fun _ s' =>
      s'.store = ⟨s.scopes.define scope name value, s.heap⟩) s :=
  bindIn sound scope (hvalue.mono (s.store.grows_define scope name value))
    (fun h => absurd h ordinary.1) fun h => absurd h ordinary.2

/-- In the current scope, a value may be defined that is sound once the name is there. -/
theorem define (sound : s.Sound past) {name : String} {value : Value} (ordinary : Ordinary name)
    (hvalue : value.Sound past ⟨s.scopes.define s.scope name value, s.heap⟩) :
    Does past (some s.scope) (Eval.define name value) (fun _ s' =>
      s'.store = ⟨s.scopes.define s.scope name value, s.heap⟩) s :=
  get_bind (bindIn sound s.scope hvalue (fun h => absurd h ordinary.1)
    fun h => absurd h ordinary.2)

/-- What is found in a scope of a sound state is sound. -/
theorem readVariable (sound : s.Sound past) (id : Id) (name : String) (line : Nat) :
    Does past home (Eval.readVariable id name line) (fun value s' => value.Sound past s'.store)
      s := by
  refine get_bind ?_
  dsimp only
  split
  · rename_i value found
    refine .pure sound ?_
    split at found
    · simp only [Scopes.getAt?, Option.bind_eq_some_iff] at found
      obtain ⟨scope, -, found⟩ := found
      exact sound.store.values scope name value found
    · exact sound.store.values globalScope name value found
  · exact .fail sound _ _

/-- An assignment binds no new name. -/
theorem writeVariable (sound : s.Sound past) (target : Variable) {value : Value}
    (ordinary : Ordinary target.name.text) (hvalue : value.Sound past s.store) :
    Does past home (Eval.writeVariable target value) (fun _ _ => True) s := by
  unfold Eval.writeVariable Does
  dsimp only
  split
  · rename_i scope found
    have bound : s.scopes.binds scope target.name.text := (Option.filter_eq_some_iff.1 found).2
    refine ⟨⟨⟨?_, sound.filed⟩, s.store.grows_define scope _ _, fun other name _ _ h => ?_⟩,
      trivial⟩
    · exact sound.store.define scope (hvalue.mono (s.store.grows_define scope _ _))
        (fun h => absurd h ordinary.1) fun h => absurd h ordinary.2
    · change (s.scopes.define scope target.name.text value).binds other name at h
      rw [Scopes.binds_define] at h
      simp only [Bool.or_eq_true, decide_eq_true_eq] at h
      rcases h with ⟨rfl, rfl, -⟩ | h
      · exact bound
      · exact h
  · exact sound

/-- The closures of methods have the declarations of the methods and the given scope. -/
theorem newMethods (sound : s.Sound past) (scope : ScopeId) (declarations : List FunDecl)
    (methods : Bindings Closure) :
    Does past home (Eval.newMethods scope declarations methods) (fun found s' =>
      s'.store = s.store ∧ ∀ name closure, found.get? name = some closure →
        methods.get? name = some closure ∨
          closure.scope = scope ∧ closure.declaration ∈ declarations) s := by
  induction declarations generalizing methods s with
  | nil => exact .pure sound ⟨rfl, fun _ _ h => Or.inl h⟩
  | cons declaration rest ih =>
    have made : Does past home (Eval.newClosure declaration scope declaration.isInitializer)
        (fun closure s' => s'.store = s.store ∧ closure.scope = scope ∧
          closure.declaration = declaration) s :=
      ⟨.of_same sound rfl rfl rfl, rfl, rfl, rfl⟩
    refine made.bind fun closure s' leads h => ?_
    obtain ⟨same, hscope, hdeclaration⟩ := h
    refine (ih leads.sound _).imp fun found s'' _ h => ⟨h.1.trans same, fun name c hc => ?_⟩
    rcases h.2 name c hc with given | ⟨inScope, mem⟩
    · rw [Bindings.get?_insert] at given
      split at given
      · cases given
        exact Or.inr ⟨hscope, hdeclaration ▸ List.mem_cons_self⟩
      · exact Or.inl given
    · exact Or.inr ⟨inScope, List.mem_cons_of_mem _ mem⟩

/-- A call answers with a sound value, or with the receiver, which is an instance. -/
theorem callResult (sound : s.Sound past) (closure : Closure) {completion : Completion}
    (hvalue : completion.value.Sound past s.store) :
    Does past home (Eval.callResult closure completion) (fun value s' => value.Sound past s'.store)
      s := by
  unfold Eval.callResult
  split
  · refine get_bind ?_
    split
    · rename_i receiver found
      simp only [Scopes.getAt?, Option.bind_eq_some_iff] at found
      obtain ⟨scope, -, found⟩ := found
      exact .pure sound (sound.store.values scope "this" receiver found)
    · exact .fail sound _ _
  · exact .pure sound hvalue

/-- A value that is a class gives that class. -/
theorem superclassOf (sound : s.Sound past) (name : Name) {value : Value}
    (hvalue : value.Sound past s.store) :
    Does past home (Eval.superclassOf name value) (fun cls s' => s' = s ∧ cls.Sound past s.store)
      s := by
  unfold Eval.superclassOf
  split
  · exact .pure sound ⟨rfl, hvalue⟩
  · exact .fail sound _ _

/-- A new instance has a sound class, and an iterator as payload only if its class is one of
iterators. -/
theorem newInstance (sound : s.Sound past) (cls : Class) (hcls : cls.Sound past s.store)
    {payload : Option Payload}
    (iterator : ∀ kind held, cls = .builtin kind → payload = some (.iterator held) →
      kind.IsIterator) :
    Does past home (Eval.newInstance cls payload)
      (fun id s' => s'.heap.class? id = some cls) s := by
  refine ⟨⟨⟨sound.store.addInstance hcls iterator, sound.filed⟩,
    s.store.grows_heap fun _ _ found => Heap.class?_add_of_some found cls payload,
    fun _ _ _ _ h => h⟩, ?_⟩
  change (s.heap.add cls payload).2.class? s.heap.instances.size = some cls
  rw [Heap.class?_add, if_pos rfl]

/-- A new storage holds sound values. -/
theorem newStorage (sound : s.Sound past) {items : Array Value}
    (hitems : ∀ value ∈ items, value.Sound past s.store) :
    Does past home (Eval.newStorage items) (fun _ _ => True) s :=
  ⟨⟨⟨sound.store.addStorage hitems, sound.filed⟩, s.store.grows_heap fun _ _ h => h,
    fun _ _ _ _ h => h⟩, trivial⟩

theorem newList (sound : s.Sound past) {items : List Value}
    (hitems : ∀ value ∈ items, value.Sound past s.store) :
    Does past home (Eval.newList items) (fun value s' => value.Sound past s'.store) s := by
  refine (newStorage sound fun value h => hitems value (List.mem_toArray.1 h)).bind
    fun storage s' leads _ => ?_
  exact (newInstance leads.sound (.builtin .list) trivial
    fun _ _ _ h => by cases h).bind fun id s'' leads' _ => .pure leads'.sound trivial

/-- A field holds a sound value. -/
theorem setField (sound : s.Sound past) (self : InstanceId) (name : String) {value : Value}
    (hvalue : value.Sound past s.store) :
    Does past home (Eval.modifyHeap (·.setField self name value)) (fun _ _ => True) s :=
  modifyHeap sound (by simp) (sound.store.setField self name hvalue)

/-- A payload may be an iterator only if the class is one of iterators. -/
theorem setPayload (sound : s.Sound past) (self : InstanceId) {payload : Payload}
    (iterator : ∀ kind held, s.heap.class? self = some (.builtin kind) →
      payload = .iterator held → kind.IsIterator) :
    Does past home (Eval.modifyHeap (·.setPayload self payload)) (fun _ _ => True) s :=
  modifyHeap sound (by simp) (sound.store.setPayload self iterator)

theorem pushItem (sound : s.Sound past) (storage : StorageId) {value : Value}
    (hvalue : value.Sound past s.store) :
    Does past home (Eval.modifyHeap (·.pushItem storage value)) (fun _ _ => True) s :=
  modifyHeap sound (fun _ _ h => h) (sound.store.pushItem storage hvalue)

theorem setItem (sound : s.Sound past) (storage : StorageId) (place : Nat) {value : Value}
    (hvalue : value.Sound past s.store) :
    Does past home (Eval.modifyHeap (·.setItem storage place value)) (fun _ _ => True) s :=
  modifyHeap sound (fun _ _ h => h) (sound.store.setItem storage place hvalue)

/-- A new instance of a class of iterators. -/
theorem newIterator (sound : s.Sound past) {kind : BuiltinClass} (stepped : kind.IsIterator)
    (iterator : Iterator) :
    Does past home (Eval.newIterator kind iterator) (fun value s' => value.Sound past s'.store) s :=
  (newInstance sound (.builtin kind) trivial
    fun _ _ h _ => by cases h; exact stepped).bind fun _ _ leads _ => .pure leads.sound trivial

/-! ## 4. Built-in functions

None of them touches scopes or heap. -/

theorem numberArgument (sound : s.Sound past) (function : BuiltinFunction) (line : Nat)
    (value : Value) :
    Does past home (Eval.numberArgument function line value) (fun _ s' => s' = s ∧ True) s := by
  unfold Eval.numberArgument
  split
  · exact .pure sound ⟨rfl, trivial⟩
  · exact .failBuiltin sound _ _

theorem inputLine (sound : s.Sound past) (line : Nat) :
    Does past home (Eval.inputLine line) (fun value s' => value.Sound past s'.store) s := by
  have reads : Does past home Eval.readLine (fun _ _ => True) s :=
    ⟨.of_same sound rfl rfl rfl, trivial⟩
  refine reads.bind fun found s' leads _ => ?_
  cases found with
  | line text => exact .pure leads.sound trivial
  | ended => exact .pure leads.sound trivial
  | invalid => exact .failBuiltin leads.sound _ _
  | starved => exact .throw leads.sound _

/-- Built-in functions answer with data. -/
theorem callFunction (sound : s.Sound past) (function : BuiltinFunction) (arguments : List Value)
    (line : Nat) :
    Does past home (Eval.callFunction function arguments line)
      (fun value s' => value.Sound past s'.store) s := by
  have clock : Does past home Eval.readClock (fun _ _ => True) s :=
    ⟨.of_same sound rfl rfl rfl, trivial⟩
  unfold Eval.callFunction
  split
  · exact clock.bind fun _ _ leads _ => .pure leads.sound trivial
  · exact inputLine sound line
  · unfold Eval.toText
    split
    · exact .pure sound trivial
    · exact .pure sound trivial
    · exact .failBuiltin sound _ _
  · unfold Eval.toNumber
    split
    · exact .pure sound trivial
    · split
      · exact .pure sound trivial
      · exact .failBuiltin sound _ _
    · exact .failBuiltin sound _ _
  · exact (numberArgument sound _ _ _).looks fun _ _ => .pure sound trivial
  · exact (numberArgument sound _ _ _).looks fun _ _ => .pure sound trivial
  · exact (numberArgument sound _ _ _).looks fun _ _ => .pure sound trivial
  · exact (numberArgument sound _ _ _).looks fun _ _ => .pure sound trivial
  · exact (numberArgument sound _ _ _).looks fun _ _ => .pure sound trivial
  · refine (numberArgument sound _ _ _).looks fun x _ => ?_
    split
    · exact .failBuiltin sound _ _
    · exact .pure sound trivial
  · exact .throw sound _

/-! ## 5. Built-in methods

What they answer with has been in the heap before, or is new. -/

theorem listStorage (sound : s.Sound past) (self : InstanceId) (line : Nat) :
    Does past home (Eval.listStorage self line) (fun _ s' => s' = s ∧ True) s := by
  refine get_bind ?_
  split
  · exact .pure sound ⟨rfl, trivial⟩
  · exact .failBuiltin sound _ _

theorem linkedChain (sound : s.Sound past) (self : InstanceId) (line : Nat) :
    Does past home (Eval.linkedChain self line) (fun _ s' => s' = s ∧ True) s := by
  refine get_bind ?_
  split
  · exact .pure sound ⟨rfl, trivial⟩
  · exact .failBuiltin sound _ _

/-- The iterator that is found is the one that the instance holds. -/
theorem heldIterator (sound : s.Sound past) (self : InstanceId) (line : Nat) :
    Does past home (Eval.heldIterator self line)
      (fun iterator s' => s' = s ∧ s.heap.iterator? self = some iterator) s := by
  refine get_bind ?_
  split
  · rename_i iterator held
    exact .pure sound ⟨rfl, held⟩
  · exact .failBuiltin sound _ _

/-- Checking an index changes nothing. -/
theorem index (sound : s.Sound past) (storage : StorageId) (line : Nat) (place : Value) :
    Does past home (Eval.index storage line place) (fun _ s' => s' = s ∧ True) s := by
  unfold Eval.index
  split
  · split
    · refine get_bind ?_
      split
      · exact .pure sound ⟨rfl, trivial⟩
      · exact .failBuiltin sound _ _
    · exact .failBuiltin sound _ _
  · exact .failBuiltin sound _ _

theorem rangeBound (sound : s.Sound past) (line : Nat) (bound : Value) :
    Does past home (Eval.rangeBound line bound) (fun _ s' => s' = s ∧ True) s := by
  unfold Eval.rangeBound
  split
  · exact .pure sound ⟨rfl, trivial⟩
  · exact .failBuiltin sound _ _

/-- A chain is changed by a new element at one of its ends. -/
theorem modifyChain (sound : s.Sound past) (self : InstanceId) (line : Nat)
    {change : Nodes Value → Chain → Chain × Nodes Value}
    (elements : ∀ nodes chain id node, (change nodes chain).2.node? id = some node →
      node.element.Sound past s.store ∨
        ∃ old, nodes.node? id = some old ∧ old.element = node.element) :
    Does past home (Eval.modifyChain self line change) (fun _ _ => True) s := by
  refine (linkedChain sound self line).looks fun chain _ => ?_
  have nodes := sound.store.setNodes (change s.heap.nodes chain).2
    fun id node found => by
      rcases elements s.heap.nodes chain id node found with new | ⟨old, hold, same⟩
      · exact new
      · rw [← same]
        exact sound.store.nodes id old hold
  exact .modifyHeap sound
    (fun id cls hcls => by rw [Heap.class?_setPayload]; exact hcls)
    (nodes.setPayload self fun _ _ _ h => by cases h)

theorem iteratorHasItems (sound : s.Sound past) (self : InstanceId) (line : Nat) :
    Does past home (Eval.iteratorHasItems self line) (fun _ _ => True) s :=
  (heldIterator sound self line).looks fun _ _ => get_bind (.pure sound trivial)

/-- The item at hand is in a storage or a chain of a sound state. -/
theorem iteratorCurrent (sound : s.Sound past) (self : InstanceId) (line : Nat) :
    Does past home (Eval.iteratorCurrent self line) (fun value s' => value.Sound past s'.store)
      s := by
  refine (heldIterator sound self line).looks fun iterator _ => get_bind ?_
  split
  · rename_i value current
    refine .pure sound ?_
    unfold Heap.current? at current
    split at current
    · split at current
      · exact sound.store.items _ _ _ current
      · obtain ⟨id, node, hnode, rfl⟩ := Nodes.element_of_first? current
        exact sound.store.nodes id node hnode
      · cases current
        trivial
    · cases current
  · exact .failBuiltin sound _ _

/-- An iterator that has been moved is one still. -/
theorem iteratorAdvance (sound : s.Sound past) (self : InstanceId) (line : Nat) :
    Does past home (Eval.iteratorAdvance self line) (fun _ _ => True) s := by
  refine (heldIterator sound self line).looks fun iterator held => ?_
  exact .modifyHeap sound (by simp) (sound.store.setPayload self fun kind _ hcls _ =>
    sound.store.iterators self kind iterator hcls (Heap.iterator?_eq_some.1 held))

/-- An instance of a built-in class that holds an iterator is one of a class of iterators. -/
theorem cursorFor (sound : s.Sound past) (iterator : Value) :
    Does past home (Eval.cursorFor iterator) (fun cursor s' => s' = s ∧
      (cursor = .protocol iterator ∨ ∃ id kind, cursor = .direct id ∧
        s.heap.class? id = some (.builtin kind) ∧ kind.IsIterator)) s := by
  unfold Eval.cursorFor
  split
  · rename_i id
    refine get_bind ?_
    dsimp only
    split
    · rename_i direct
      simp only [Bool.and_eq_true, Option.any_eq_true, Option.isSome_iff_exists] at direct
      obtain ⟨⟨cls, hcls, builtin⟩, held, hheld⟩ := direct
      cases cls with
      | builtin kind =>
        exact .pure sound ⟨rfl, Or.inr ⟨id, kind, rfl, hcls,
          sound.store.iterators id kind held hcls (Heap.iterator?_eq_some.1 hheld)⟩⟩
      | base info => cases builtin
      | derived info superclass => cases builtin
    · exact .pure sound ⟨rfl, Or.inl rfl⟩
  · exact .pure sound ⟨rfl, Or.inl rfl⟩

/-- A built-in method is called on an instance whose class, if it is built in, has the method. -/
theorem callMethod (sound : s.Sound past) {method : BuiltinMethod} {self : InstanceId}
    (own : ∃ cls, s.heap.class? self = some cls ∧
      ∀ kind, cls = .builtin kind → method ∈ kind.methods)
    {arguments : List Value} (harguments : ∀ value ∈ arguments, value.Sound past s.store)
    (line : Nat) :
    Does past home (Eval.callMethod method self arguments line)
      (fun value s' => value.Sound past s'.store) s := by
  unfold Eval.callMethod
  split
  · refine (newStorage sound fun _ h => by simp at h).bind fun _ s' leads _ => ?_
    exact (setPayload leads.sound self (by simp)).bind fun _ _ leads _ => .pure leads.sound trivial
  · have hvalue := harguments _ List.mem_cons_self
    exact (listStorage sound self line).looks fun storage _ =>
      (pushItem sound storage hvalue).bind fun _ _ leads _ => .pure leads.sound trivial
  · refine (listStorage sound self line).looks fun storage _ => (index sound _ _ _).looks
      fun i _ => get_bind ?_
    split
    · rename_i value found
      exact .pure sound (sound.store.items _ _ _ found)
    · exact .failBuiltin sound _ _
  · have hvalue := harguments _ (List.mem_cons_of_mem _ List.mem_cons_self)
    exact (listStorage sound self line).looks fun storage _ => (index sound _ _ _).looks
      fun i _ => (setItem sound storage i hvalue).bind fun _ _ leads _ =>
        .pure leads.sound (hvalue.mono leads.grows)
  · exact (listStorage sound self line).looks fun _ _ => get_bind (.pure sound trivial)
  · exact (listStorage sound self line).looks fun _ _ => newIterator sound (Or.inr (Or.inl rfl)) _
  · exact (setPayload sound self (by simp)).bind fun _ _ leads _ => .pure leads.sound trivial
  · refine (modifyChain sound self line fun nodes chain id node found => ?_).bind
      fun _ _ leads _ => .pure leads.sound trivial
    rcases Nodes.element_of_pushBack found with new | old
    · exact Or.inl (new ▸ harguments _ List.mem_cons_self)
    · exact Or.inr old
  · refine (modifyChain sound self line fun nodes chain id node found => ?_).bind
      fun _ _ leads _ => .pure leads.sound trivial
    rcases Nodes.element_of_push found with new | old
    · exact Or.inl (new ▸ harguments _ List.mem_cons_self)
    · exact Or.inr old
  · refine (linkedChain sound self line).looks fun chain _ => get_bind (.pure sound ?_)
    cases hfirst : s.heap.nodes.first? chain with
    | none => trivial
    | some element =>
      obtain ⟨id, node, hnode, rfl⟩ := Nodes.element_of_first? hfirst
      exact sound.store.nodes id node hnode
  · exact (linkedChain sound self line).looks fun _ _ => get_bind (.pure sound trivial)
  · exact (linkedChain sound self line).looks fun _ _ => .pure sound trivial
  · exact (linkedChain sound self line).looks fun _ _ =>
      newIterator sound (Or.inr (Or.inr rfl)) _
  · refine (rangeBound sound _ _).looks fun first _ => (rangeBound sound _ _).looks fun last _ =>
      (rangeBound sound _ _).looks fun step _ => ?_
    split
    · exact .failBuiltin sound _ _
    · refine (setPayload sound self fun kind _ hcls _ => ?_).bind
        fun _ _ leads _ => .pure leads.sound trivial
      -- of the built-in classes, only `Range` has this method
      obtain ⟨cls, hown, mem⟩ := own
      have member := mem kind (Option.some.inj (hown.symm.trans hcls))
      cases kind with
      | range => exact Or.inl rfl
      | _ => simp [BuiltinClass.methods] at member
  · exact .pure sound trivial
  · exact (iteratorHasItems sound self line).bind fun _ _ leads _ => .pure leads.sound trivial
  · exact iteratorCurrent sound self line
  · exact (iteratorAdvance sound self line).bind fun _ _ leads _ => .pure leads.sound trivial
  · exact .throw sound _

end Does

end Eval

end Lox
