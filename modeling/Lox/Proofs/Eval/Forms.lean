/-
# Acts that bring up formed values only

A state is formed if all values in it are, and if every scope that has been made for a receiver
binds `this` (`State.Formed`).  The acts of evaluation lead from formed states to formed states and
let the heap grow (`Eval.Forms`).  Most of them compute data, which is always formed, and leave
scopes and heap alone (`Eval.Computes`).  The built-in methods rely on the receiver: its class has
the class of the method at its root, so a payload that a method sets is of the right kind, and one
that it finds too (`Eval.Forms.callMethod`).
-/
import Lox.Proofs.Scoping.Rearrange
import Lox.Proofs.Value.Formed

namespace Lox

/-! ## 1. States

A value is formed with respect to a heap: an instance is there, with a payload that fits its class.
A larger heap keeps what is formed. -/

/-- All values in a state are formed, and the scopes of receivers bind them. -/
structure State.Formed (past : Past) (s : State) : Prop where
  heap : s.heap.Formed
  bound : ∀ scope name value, s.scopes.get? scope name = some value → value.Formed s.heap
  receivers : ∀ scope declaration, scope < s.scopes.all.size →
    past.Opened scope (.receiver declaration) → s.scopes.binds scope "this"

/-- A formed state has come after another one. -/
structure State.Forms (past : Past) (s s' : State) : Prop where
  formed : s'.Formed past
  grows : s.heap.Grows s'.heap

/-- Two states have the same scopes and the same heap. -/
structure State.SameStore (s s' : State) : Prop where
  scopes : s'.scopes = s.scopes
  heap : s'.heap = s.heap

theorem State.SameStore.refl (s : State) : s.SameStore s := ⟨rfl, rfl⟩

theorem State.SameStore.trans {s s' s'' : State} (h : s.SameStore s') (h' : s'.SameStore s'') :
    s.SameStore s'' :=
  ⟨h'.scopes.trans h.scopes, h'.heap.trans h.heap⟩

/-- What a loop can step: an instance is stepped directly if it holds an iterator. -/
def Cursor.Formed (heap : Heap) : Cursor → Prop
  | .direct id => (heap.iterator? id).isSome
  | .protocol iterator => iterator.Formed heap

/-- A heap that grows keeps what an instance is, and so what a loop can step. -/
theorem Cursor.Formed.mono {heap heap' : Heap} {cursor : Cursor} (h : cursor.Formed heap)
    (grows : heap.Grows heap') : cursor.Formed heap' := by
  cases cursor with
  | direct id =>
    obtain ⟨iterator, found⟩ := Option.isSome_iff_exists.1 h
    obtain ⟨payload, found', same⟩ := grows.payload id _ (Heap.iterator?_eq_some.1 found)
    have methods : .hasItems ∈ payload.kind.methods := same ▸ iterator.hasItems_mem_methods
    obtain ⟨iterator', rfl⟩ := Payload.eq_iterator_of_kind methods
    exact Option.isSome_iff_exists.2 ⟨iterator', Heap.iterator?_eq_some.2 found'⟩
  | protocol iterator => exact Value.Formed.mono grows h

section States

variable {past : Past} {s s' s'' : State}

namespace State.Forms

theorem refl (h : s.Formed past) : s.Forms past s := ⟨h, .refl _⟩

/-- Formed at the end, and grown over both stretches. -/
theorem trans (h : s.Forms past s') (h' : s'.Forms past s'') : s.Forms past s'' :=
  ⟨h'.formed, h.grows.trans h'.grows⟩

/-- Only the scopes and the heap count. -/
theorem of_same (h : s.Formed past) (same : s.SameStore s') : s.Forms past s' where
  formed := {
    heap := same.heap ▸ h.heap
    bound := by
      rw [same.scopes, same.heap]
      exact h.bound
    receivers := by
      rw [same.scopes]
      exact h.receivers }
  grows := by
    rw [same.heap]
    exact .refl _

end State.Forms

namespace State.Formed

/-- A change of the heap keeps the state formed if the new heap is, and if it has grown. -/
theorem setHeap (h : s.Formed past) {heap : Heap} (formed : heap.Formed)
    (grows : s.heap.Grows heap) : s.Forms past { s with heap := heap } where
  formed := ⟨formed, fun scope name value found => (h.bound scope name value found).mono grows,
    h.receivers⟩
  grows := grows

/-- Defining a name gives a scope one more value, which is formed. -/
theorem define (h : s.Formed past) (scope : ScopeId) (name : String) {value : Value}
    (hvalue : value.Formed s.heap) :
    s.Forms past { s with scopes := s.scopes.define scope name value } where
  formed := {
    heap := h.heap
    bound := fun other name' found hfound => by
      rw [Scopes.get?_define] at hfound
      split at hfound
      · cases hfound
        exact hvalue
      · exact h.bound other name' found hfound
    receivers := fun other declaration lt opened => by
      rw [Scopes.size_define] at lt
      rw [Scopes.binds_define, h.receivers other declaration lt opened, Bool.or_true] }
  grows := .refl _

/-- A scope is made that is not that of a receiver. -/
theorem newScope (h : s.Formed past) (enclosing : ScopeId)
    (other : ∀ declaration, ¬ past.Opened s.scopes.all.size (.receiver declaration)) :
    s.Forms past { s with scopes := (s.scopes.add (some enclosing)).2 } where
  formed := {
    heap := h.heap
    bound := fun scope name value found => by
      rw [Scopes.get?_add] at found
      exact h.bound scope name value found
    receivers := fun scope declaration lt opened => by
      rw [Scopes.size_add] at lt
      rw [Scopes.binds_add]
      rcases Nat.lt_succ_iff_lt_or_eq.1 lt with old | rfl
      · exact h.receivers scope declaration old opened
      · exact absurd opened (other declaration) }
  grows := .refl _

/-- A scope is made that binds its receiver. -/
theorem receive (h : s.Formed past) (enclosing : ScopeId) {receiver : InstanceId}
    (complete : s.heap.Complete receiver) (stamp : Nat) :
    s.Forms past { s with
      scopes := (s.store.opened enclosing "this" (.inst receiver)).scopes, stamp := stamp } where
  formed := {
    heap := h.heap
    bound := fun scope name value found => by
      rw [Store.get?_opened] at found
      split at found
      · cases found
        exact complete
      · exact h.bound scope name value found
    receivers := fun scope declaration lt opened => by
      rw [Store.opened, Scopes.size_define, Scopes.size_add] at lt
      rw [Scopes.binds, Store.get?_opened]
      rcases Nat.lt_succ_iff_lt_or_eq.1 lt with old | rfl
      · rw [if_neg fun new => Nat.ne_of_lt old new.1]
        exact h.receivers scope declaration old opened
      · rw [if_pos ⟨rfl, rfl⟩]
        rfl }
  grows := .refl _

end State.Formed

end States

/-! ## 2. Computations

Most of what is built in answers with data, and such an act needs no other lemma than this. -/

/-- Numbers, strings and the like. -/
structure Value.Data (value : Value) : Prop where
  callable : value.type ≠ .callable
  inst : value.type ≠ .inst

/-- Data are formed in every heap. -/
theorem Value.Data.formed {value : Value} (h : value.Data) (heap : Heap) : value.Formed heap :=
  formed_of_type heap h.callable h.inst

namespace Eval

/-- An act that computes data, at most with a look at the console. -/
def Computes (x : Eval Value) : Prop :=
  ∀ s, Ends (x s) (fun v s' => s.SameStore s' ∧ v.Data) fun _ s' => s.SameStore s'

namespace Computes

/-- An answer that is data is computed. -/
theorem pure {value : Value} (h : value.Data) : Computes (Pure.pure value) :=
  fun s => ⟨.refl s, h⟩

theorem number (x : Float) : Computes (Pure.pure (.number x)) := .pure ⟨nofun, nofun⟩

theorem boolean (b : Bool) : Computes (Pure.pure (.boolean b)) := .pure ⟨nofun, nofun⟩

theorem string (text : String) : Computes (Pure.pure (.string text)) := .pure ⟨nofun, nofun⟩

theorem throw (interrupt : Interrupt) : Computes (MonadExcept.throw interrupt) :=
  fun s => .refl s

theorem ite {p : Prop} [Decidable p] {x y : Eval Value} (hx : Computes x) (hy : Computes y) :
    Computes (if p then x else y) := by
  split
  · exact hx
  · exact hy

/-- To look at the state first makes no difference. -/
theorem looks {α : Type} {x : Eval α} {f : α → Eval Value} (hx : Looks x)
    (hf : ∀ v, Computes (f v)) : Computes (x >>= f) := by
  intro s
  have same := hx s
  cases hs : x s with
  | error interrupt s' =>
    rw [hs] at same
    cases same
    rw [bind_of_error hs]
    exact .refl _
  | ok v s' =>
    rw [hs] at same
    cases same
    rw [bind_of_ok hs]
    exact hf v _

/-- Operators compute data or fail. -/
theorem unary (op : UnaryOp) (line : Nat) (operand : Value) :
    Computes (Eval.unary op line operand) := by
  unfold Eval.unary
  split
  · exact .number _
  · exact .throw _
  · exact .boolean _

theorem arithmetic (op : BinaryOp) (line : Nat) (x y : Float) :
    Computes (Eval.arithmetic op line x y) := by
  cases op
  case divide => exact .ite (.throw _) (.number _)
  case subtract | multiply | add => exact .number _
  all_goals exact .boolean _

/-- Adding texts makes a text, and all other operators make numbers or booleans. -/
theorem binary (op : BinaryOp) (line : Nat) (left right : Value) :
    Computes (Eval.binary op line left right) := by
  unfold Eval.binary
  split
  · exact .boolean _
  · exact .boolean _
  · split
    · exact .number _
    · exact .string _
    · exact .throw _
  · split
    · exact .arithmetic _ _ _ _
    · exact .throw _

/-- Reading a line, or looking at the clock, leaves scopes and heap alone. -/
theorem console {α : Type} {view : State → α × State} {f : α → Eval Value}
    (same : ∀ s : State, s.SameStore (view s).2) (hf : ∀ v, Computes (f v)) :
    Computes ((modifyGet view : Eval α) >>= f) := by
  intro s
  exact Ends.imp (hf (view s).1 (view s).2) (fun _ _ h => ⟨(same s).trans h.1, h.2⟩)
    fun _ _ h => (same s).trans h

/-- Built-in functions compute data, and some of them ask the console. -/
theorem callFunction (function : BuiltinFunction) (arguments : List Value) (line : Nat) :
    Computes (Eval.callFunction function arguments line) := by
  unfold Eval.callFunction
  split
  · exact .console (fun _ => ⟨rfl, rfl⟩) fun _ => .number _
  · refine .console (fun _ => ⟨rfl, rfl⟩) fun found => ?_
    cases found with
    | line text => exact .string _
    | ended => exact .pure ⟨nofun, nofun⟩
    | invalid => exact .throw _
    | starved => exact .throw _
  · unfold Eval.toText
    split
    · exact .string _
    · exact .string _
    · exact .throw _
  · unfold Eval.toNumber
    split
    · exact .number _
    · split
      · exact .number _
      · exact .throw _
    · exact .throw _
  · exact .looks (Looks.plain.numberArgument _ _ _) fun _ => .number _
  · exact .looks (Looks.plain.numberArgument _ _ _) fun _ => .number _
  · exact .looks (Looks.plain.numberArgument _ _ _) fun _ => .number _
  · exact .looks (Looks.plain.numberArgument _ _ _) fun _ => .number _
  · exact .looks (Looks.plain.numberArgument _ _ _) fun _ => .number _
  · exact .looks (Looks.plain.numberArgument _ _ _) fun _ => .ite (.throw _) (.number _)
  · exact .throw _

end Computes

/-! ## 3. Acts

What is left are acts that change the scopes, or that answer with a value found in the state. -/

/-- A storage that is found is the payload of the instance. -/
theorem listStorage_eq_ok {self : InstanceId} {line : Nat} {storage : StorageId} {s s' : State}
    (h : listStorage self line s = .ok storage s') :
    s.heap.payload? self = some (.list storage) := by
  rw [listStorage, look_bind] at h
  cases found : s.heap.payload? self with
  | none =>
    rw [found] at h
    cases h
  | some payload =>
    rw [found] at h
    cases payload <;> cases h
    rfl

/-- A chain that is found is the payload of the instance. -/
theorem linkedChain_eq_ok {self : InstanceId} {line : Nat} {chain : Chain} {s s' : State}
    (h : linkedChain self line s = .ok chain s') :
    s.heap.payload? self = some (.linkedList chain) := by
  rw [linkedChain, look_bind] at h
  cases found : s.heap.payload? self with
  | none =>
    rw [found] at h
    cases h
  | some payload =>
    rw [found] at h
    cases payload <;> cases h
    rfl

/-- An iterator that is found is the payload of the instance. -/
theorem heldIterator_eq_ok {self : InstanceId} {line : Nat} {iterator : Iterator} {s s' : State}
    (h : heldIterator self line s = .ok iterator s') :
    s.heap.payload? self = some (.iterator iterator) := by
  rw [heldIterator, look_bind] at h
  cases found : s.heap.iterator? self with
  | none =>
    rw [found] at h
    cases h
  | some held =>
    rw [found] at h
    cases h
    exact Heap.iterator?_eq_some.1 found

variable {α β : Type}

/-- An act leads to a formed state, however it ends. -/
def Forms (past : Past) (x : Eval α) (good : α → State → Prop) (s : State) : Prop :=
  Ends (x s) (fun v s' => s.Forms past s' ∧ good v s') fun _ s' => s.Forms past s'

namespace Forms

/-- The answer is formed. -/
abbrev Good (value : Value) (s : State) : Prop := value.Formed s.heap

variable {past : Past} {s : State} (formed : s.Formed past) {good : α → State → Prop}

include formed

theorem pure {value : α} (h : good value s) : Forms past (Pure.pure value) good s :=
  ⟨.refl formed, h⟩

/-- An act that fails has no answer to be shown formed. -/
theorem throw (interrupt : Interrupt) :
    Forms past (MonadExcept.throw interrupt : Eval α) good s :=
  State.Forms.refl formed

omit formed in
/-- The second act begins in a formed state, with an answer that is good there. -/
theorem bind {x : Eval α} {f : α → Eval β} {good' : β → State → Prop}
    (hx : Forms past x good s)
    (hf : ∀ v s', s.Forms past s' → good v s' → Forms past (f v) good' s') :
    Forms past (x >>= f) good' s := by
  refine Ends.bind (Ends.imp hx (fun v s' h => ?_) fun _ _ h => h)
  exact Ends.imp (hf v s' h.1 h.2) (fun _ _ h' => ⟨h.1.trans h'.1, h'.2⟩) fun _ _ h' => h.1.trans h'

omit formed in
/-- What has been shown of an answer may be put in another form. -/
theorem imp {x : Eval α} {good' : α → State → Prop} (hx : Forms past x good s)
    (h : ∀ v s', s.Forms past s' → good v s' → good' v s') : Forms past x good' s :=
  Ends.imp hx (fun v s' found => ⟨found.1, h v s' found.1 found.2⟩) fun _ _ h => h

theorem looks {x : Eval α} {f : α → Eval β} {good' : β → State → Prop} (hx : Looks x)
    (hf : ∀ v, x s = .ok v s → Forms past (f v) good' s) : Forms past (x >>= f) good' s := by
  have same := hx s
  refine Ends.bind ?_
  cases hs : x s with
  | error interrupt s' =>
    rw [hs] at same
    cases same
    exact State.Forms.refl formed
  | ok v s' =>
    rw [hs] at same
    cases same
    exact hf v hs

/-- A look at the state, whatever the answer. -/
theorem of_looks {x : Eval α} (hx : Looks x) : Forms past x (fun _ _ => True) s := by
  have same := hx s
  unfold Forms
  cases hs : x s with
  | error interrupt s' =>
    rw [hs] at same
    cases same
    exact State.Forms.refl formed
  | ok v s' =>
    rw [hs] at same
    cases same
    exact ⟨.refl formed, trivial⟩

omit formed in
/-- An act that begins with a look at the state. -/
theorem get_bind {f : State → Eval β} {good : β → State → Prop} (h : Forms past (f s) good s) :
    Forms past (MonadState.get >>= f) good s :=
  h

/-- An answer that is data is formed, whatever the heap. -/
theorem computes {x : Eval Value} (hx : Computes x) : Forms past x Good s :=
  Ends.imp (hx s) (fun _ s' h => ⟨.of_same formed h.1, h.2.formed s'.heap⟩)
    fun _ _ h => .of_same formed h

theorem define (name : String) {value : Value} (hvalue : value.Formed s.heap) :
    Forms past (Eval.define name value) (fun _ _ => True) s :=
  ⟨formed.define s.scope name hvalue, trivial⟩

theorem defineIn (scope : ScopeId) (name : String) {value : Value}
    (hvalue : value.Formed s.heap) :
    Forms past (Eval.defineIn scope name value) (fun _ _ => True) s :=
  ⟨formed.define scope name hvalue, trivial⟩

/-- The arguments of a call are formed, and the names get them. -/
theorem defineAll (scope : ScopeId) (params : List Name) {arguments : List Value}
    (given : ∀ value ∈ arguments, value.Formed s.heap) :
    Forms past (Eval.defineAll scope params arguments) (fun _ _ => True) s := by
  induction params generalizing arguments s with
  | nil => exact pure formed trivial
  | cons name rest ih =>
    cases arguments with
    | nil => exact pure formed trivial
    | cons value values =>
      refine bind (defineIn formed scope name.text (given value List.mem_cons_self))
        fun _ s₁ leads _ => ih leads.formed fun other h => ?_
      exact (given other (List.mem_cons_of_mem _ h)).mono leads.grows

/-- An assignment puts a formed value in a scope. -/
theorem writeVariable (target : Variable) {value : Value} (hvalue : value.Formed s.heap) :
    Forms past (Eval.writeVariable target value) (fun _ _ => True) s := by
  unfold Eval.writeVariable Forms
  dsimp only
  split
  · exact ⟨formed.define _ _ hvalue, trivial⟩
  · exact State.Forms.refl formed

/-- What is found in a scope of a formed state is formed. -/
theorem readVariable (id : Id) (name : String) (line : Nat) :
    Forms past (Eval.readVariable id name line) Good s := by
  refine get_bind ?_
  dsimp only
  split
  · rename_i value found
    refine pure formed ?_
    split at found
    · obtain ⟨scope, -, found⟩ := Option.bind_eq_some_iff.1 found
      exact formed.bound scope name value found
    · exact formed.bound _ name value found
  · exact throw formed _

/-- The receiver that an initializer answers with is found in the scope that has been made for
it. -/
theorem callResult (closure : Closure) {completion : Completion}
    (hvalue : completion.value.Formed s.heap) :
    Forms past (Eval.callResult closure completion) Good s := by
  unfold Eval.callResult
  split
  · refine get_bind ?_
    split
    · rename_i receiver found
      obtain ⟨scope, -, found⟩ := Option.bind_eq_some_iff.1 found
      exact pure formed (formed.bound scope _ receiver found)
    · exact throw formed _
  · exact pure formed hvalue

/-- Printing leaves scopes and heap alone. -/
theorem printValue (value : Value) (line : Nat) :
    Forms past (Eval.printValue value line) (fun _ _ => True) s := by
  unfold Eval.printValue Forms
  dsimp only
  split
  · exact ⟨.of_same formed ⟨rfl, rfl⟩, trivial⟩
  · exact .of_same formed ⟨rfl, rfl⟩

/-! ## 4. Changes of the heap

Each change keeps the heap formed, and it keeps classes and kinds of payloads, so that the heap has
grown. -/

/-- A change of the heap, as an act. -/
theorem modifyHeap {change : Heap → Heap} (after : (change s.heap).Formed)
    (grows : s.heap.Grows (change s.heap)) :
    Forms past (Eval.modifyHeap change) (fun _ _ => True) s :=
  ⟨formed.setHeap after grows, trivial⟩

/-- A field may hold any value that is formed, and classes and payloads stay as they are. -/
theorem setField (self : InstanceId) (name : String) {value : Value}
    (hvalue : value.Formed s.heap) :
    Forms past (Eval.modifyHeap (·.setField self name value)) (fun _ _ => True) s :=
  modifyHeap formed (formed.heap.setField self name hvalue) (.setField s.heap self name value)

/-- An instance is made, which need not have its payload yet. -/
theorem newInstance {cls : Class} (flagged : cls.Flagged) {payload : Option Payload}
    (root : ∀ found ∈ payload, cls.root? = some found.kind) :
    Forms past (Eval.newInstance cls payload) (fun id s' => s'.heap.class? id = some cls ∧
      s'.heap.payload? id = payload) s := by
  refine ⟨formed.setHeap (formed.heap.add flagged root) (.add s.heap cls payload), ?_, ?_⟩
  · change (s.heap.add cls payload).2.class? s.heap.instances.size = some cls
    rw [Heap.class?_add, if_pos rfl]
  · change (s.heap.add cls payload).2.payload? s.heap.instances.size = payload
    rw [Heap.payload?_add, if_pos rfl]

/-- An instance of a built-in class is made with its payload. -/
theorem newBuiltin {kind : BuiltinClass} {payload : Payload} (same : payload.kind = kind) :
    Forms past (do return .inst (← Eval.newInstance (.builtin kind) (some payload))) Good s := by
  refine bind (newInstance formed (Class.flagged_builtin kind) fun found h => ?_)
    fun id s₁ leads made => pure leads.formed ⟨_, made.1, fun _ => by rw [made.2]; rfl⟩
  cases h
  rw [Class.root?, same]

/-- A new storage holds the values that it is given. -/
theorem newStorage {values : Array Value} (hvalues : ∀ value ∈ values, value.Formed s.heap) :
    Forms past (Eval.newStorage values) (fun _ _ => True) s :=
  ⟨formed.setHeap (formed.heap.addStorage hvalues) (.of_instances rfl), trivial⟩

/-- A new list has a storage of its own as its payload. -/
theorem newList {values : List Value} (hvalues : ∀ value ∈ values, value.Formed s.heap) :
    Forms past (Eval.newList values) Good s :=
  bind (newStorage formed fun value h => hvalues value (List.mem_toArray.1 h))
    fun _ _ leads _ => newBuiltin leads.formed rfl

/-- An instance is given a payload of the kind that its class has at the root. -/
theorem setPayload {self : InstanceId} {cls : Class} {payload : Payload}
    (hcls : s.heap.class? self = some cls) (root : cls.root? = some payload.kind) :
    Forms past (Eval.modifyHeap (·.setPayload self payload)) (fun _ s' => s'.heap.Complete self)
      s := by
  refine ⟨formed.setHeap (formed.heap.setPayload hcls root)
    (formed.heap.grows_setPayload hcls root), cls, ?_, fun _ => ?_⟩
  · exact (Heap.class?_setPayload ..).trans hcls
  · change ((s.heap.setPayload self payload).payload? self).isSome
    rw [Heap.payload?_setPayload_self hcls]
    rfl

/-- A chain is changed by a new element at one of its ends. -/
theorem modifyChain (self : InstanceId) (line : Nat)
    {change : Nodes Value → Chain → Chain × Nodes Value}
    (elements : ∀ nodes chain id node, (change nodes chain).2.node? id = some node →
      node.element.Formed s.heap ∨ ∃ old, nodes.node? id = some old ∧ old.element = node.element) :
    Forms past (Eval.modifyChain self line change) (fun _ _ => True) s := by
  refine looks formed (Looks.plain.linkedChain self line) fun chain found => ?_
  obtain ⟨cls, hcls, root⟩ := formed.heap.payloads self _ (linkedChain_eq_ok found)
  have nodes := formed.heap.setNodes fun id node h => elements s.heap.nodes chain id node h
  have grows : s.heap.Grows { s.heap with nodes := (change s.heap.nodes chain).2 } :=
    .of_instances rfl
  have hcls' := grows.class self cls hcls
  exact modifyHeap formed (nodes.setPayload hcls' root)
    (grows.trans (nodes.grows_setPayload hcls' root))

/-- The item at hand is in a storage or in a chain of a formed heap. -/
theorem iteratorCurrent (self : InstanceId) (line : Nat) :
    Forms past (Eval.iteratorCurrent self line) Good s := by
  refine looks formed (Looks.plain.heldIterator self line) fun iterator _ => get_bind ?_
  split
  · rename_i value current
    refine pure formed ?_
    unfold Heap.current? at current
    split at current
    · split at current
      · exact formed.heap.items _ _ _ current
      · obtain ⟨id, node, hnode, rfl⟩ := Nodes.element_of_first? current
        exact formed.heap.elements id node hnode
      · cases current
        trivial
    · cases current
  · exact throw formed _

/-- An iterator that has been moved is an iterator of the same kind. -/
theorem iteratorAdvance (self : InstanceId) (line : Nat) :
    Forms past (Eval.iteratorAdvance self line) (fun _ _ => True) s := by
  refine looks formed (Looks.plain.heldIterator self line) fun iterator found => ?_
  obtain ⟨cls, hcls, root⟩ := formed.heap.payloads self _ (heldIterator_eq_ok found)
  have stepped : cls.root? = some (Payload.iterator (s.heap.advance iterator)).kind := by
    rw [root, Payload.kind, Payload.kind, Heap.kind_advance]
  exact imp (setPayload formed hcls stepped) fun _ _ _ _ => trivial

/-- A loop steps an instance directly if it holds an iterator. -/
theorem cursorFor {iterator : Value} (hiterator : iterator.Formed s.heap) :
    Forms past (Eval.cursorFor iterator) (fun cursor s' => cursor.Formed s'.heap) s := by
  unfold Eval.cursorFor
  split
  · refine get_bind ?_
    dsimp only
    split
    · rename_i id direct
      exact pure formed (Bool.and_eq_true_iff.1 direct).2
    · exact pure formed hiterator
  · exact pure formed hiterator

/-! ## 5. Built-in methods

A built-in method is only ever called on an instance whose class has the class of the method at its
root. -/

/-- A built-in method is called on an instance whose class has the class of the method at its root,
and which has its payload unless the method sets it.  The instance has its payload afterwards. -/
theorem callMethod {method : BuiltinMethod} {self : InstanceId} {arguments : List Value}
    (suits : (Method.builtin method).Suits s.heap self)
    (ready : s.heap.Complete self ∨ method.initializes)
    (given : ∀ value ∈ arguments, value.Formed s.heap) (line : Nat) :
    Forms past (Eval.callMethod method self arguments line)
      (fun value s' => value.Formed s'.heap ∧ s'.heap.Complete self) s := by
  obtain ⟨cls, kind, hcls, root, mem⟩ := suits
  -- a method that is not the initializer finds the instance with its payload
  have after : ∀ {x : Eval Value}, method.initializes = false → Forms past x Good s →
      Forms past x (fun value s' => value.Formed s'.heap ∧ s'.heap.Complete self) s := by
    intro x other hx
    have complete := ready.resolve_right (by rw [other]; exact Bool.false_ne_true)
    exact hx.imp fun _ _ leads good => ⟨good, complete.mono leads.grows⟩
  have initialized : ∀ {payload : Payload} {s₁ : State}, s.Forms past s₁ → kind = payload.kind →
      Forms past (do Eval.modifyHeap (·.setPayload self payload); return Value.inst self)
        (fun value s' => value.Formed s'.heap ∧ s'.heap.Complete self) s₁ := by
    rintro payload s₁ leads rfl
    exact bind (setPayload leads.formed (leads.grows.class _ _ hcls) root)
      fun _ _ leads complete => pure leads.formed ⟨complete, complete⟩
  have nil : ∀ {x : Eval Unit}, Forms past x (fun _ _ => True) s →
      Forms past (do x; return .nil) Good s :=
    fun hx => bind hx fun _ _ leads _ => pure leads.formed trivial
  unfold Eval.callMethod
  split
  · refine bind (newStorage formed fun _ h => by simp at h) fun storage s₁ leads _ =>
      initialized leads (BuiltinClass.eq_of_initializes mem rfl List.mem_cons_self)
  · exact after rfl (looks formed (Looks.plain.listStorage _ _) fun storage _ =>
      nil (modifyHeap formed (formed.heap.pushItem storage (given _ List.mem_cons_self))
        (.of_instances rfl)))
  · refine after rfl (looks formed (Looks.plain.listStorage _ _) fun storage _ =>
      looks formed (Looks.plain.index _ _ _) fun i _ => get_bind ?_)
    split
    · rename_i value found
      exact pure formed (formed.heap.items storage i value found)
    · exact throw formed _
  · have hvalue := given _ (List.mem_cons_of_mem _ List.mem_cons_self)
    exact after rfl (looks formed (Looks.plain.listStorage _ _) fun storage _ =>
      looks formed (Looks.plain.index _ _ _) fun i _ => bind (modifyHeap formed
        (formed.heap.setItem storage i hvalue) (.of_instances rfl)) fun _ _ leads _ =>
          pure leads.formed (hvalue.mono leads.grows))
  · exact after rfl (looks formed (Looks.plain.listStorage _ _) fun _ _ =>
      looks formed .get fun _ _ => pure formed trivial)
  · exact after rfl (looks formed (Looks.plain.listStorage _ _) fun _ _ => newBuiltin formed rfl)
  · exact initialized (.refl formed)
      (BuiltinClass.eq_of_initializes mem rfl List.mem_cons_self)
  · refine after rfl (nil (modifyChain formed self line fun nodes chain id node found => ?_))
    rcases Nodes.element_of_pushBack found with new | old
    · exact Or.inl (new ▸ given _ List.mem_cons_self)
    · exact Or.inr old
  · refine after rfl (nil (modifyChain formed self line fun nodes chain id node found => ?_))
    rcases Nodes.element_of_push found with new | old
    · exact Or.inl (new ▸ given _ List.mem_cons_self)
    · exact Or.inr old
  · refine after rfl (looks formed (Looks.plain.linkedChain _ _) fun chain _ =>
      get_bind (pure formed ?_))
    cases hfirst : s.heap.nodes.first? chain with
    | none => trivial
    | some element =>
      obtain ⟨id, node, hnode, rfl⟩ := Nodes.element_of_first? hfirst
      exact formed.heap.elements id node hnode
  · exact after rfl (looks formed (Looks.plain.linkedChain _ _) fun _ _ =>
      looks formed .get fun _ _ => pure formed trivial)
  · exact after rfl (looks formed (Looks.plain.linkedChain _ _) fun _ _ => pure formed trivial)
  · exact after rfl (looks formed (Looks.plain.linkedChain _ _) fun _ _ => newBuiltin formed rfl)
  · refine looks formed (Looks.plain.rangeBound _ _) fun first _ =>
      looks formed (Looks.plain.rangeBound _ _) fun last _ =>
        looks formed (Looks.plain.rangeBound _ _) fun step _ => ?_
    split
    · exact throw formed _
    · exact initialized (.refl formed)
        (BuiltinClass.eq_of_initializes mem rfl List.mem_cons_self)
  · exact after rfl (pure formed (ready.resolve_right (by decide)))
  · exact after rfl (looks formed (Looks.plain.iteratorHasItems _ _) fun _ _ => pure formed trivial)
  · exact after rfl (iteratorCurrent formed self line)
  · exact after rfl (nil (iteratorAdvance formed self line))
  · exact throw formed _

end Forms

end Eval

end Lox
