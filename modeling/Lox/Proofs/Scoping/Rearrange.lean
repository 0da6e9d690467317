/-
# Acts that leave the scopes alone

Most acts of evaluation touch no scope: they compute, look something up, print, or change the heap.
Whatever property the values in a state have, these acts bring no other values into the heap and
answer with no other value, as long as they are given none (`Eval.Rearranges`).  The property has
to allow for what the acts make themselves, which is data and instances of built-in classes
(`Harmless`).
-/
import Lox.Proofs.Eval.Opening
import Lox.Proofs.Scoping.Anchor

namespace Lox

/-! ## 1. States and acts

The property is one of values.  A state is within it if all values in scopes and heap have it. -/

/-- A property that all values have but functions, methods and declared classes. -/
structure Harmless (P : Value → Prop) : Prop where
  data : ∀ value, value.type ≠ .callable → P value
  builtin : ∀ kind, P (.callable (.class (.builtin kind)))

/-- All values in a state have a property. -/
abbrev State.Within (P : Value → Prop) (s : State) : Prop := ∀ value, s.store.Holds value → P value

/-- A state has come after another one with the same scopes, and all values in it have a
property. -/
structure State.Rearranges (P : Value → Prop) (s s' : State) : Prop where
  scopes : s'.scopes = s.scopes
  scope : s'.scope = s.scope
  «class» : ∀ id cls, s.heap.class? id = some cls → s'.heap.class? id = some cls
  within : s'.Within P

theorem State.Rearranges.refl {P : Value → Prop} {s : State} (h : s.Within P) :
    s.Rearranges P s :=
  ⟨rfl, rfl, fun _ _ h => h, h⟩

/-- What has been rearranged twice has been rearranged. -/
theorem State.Rearranges.trans {P : Value → Prop} {s s' s'' : State} (h : s.Rearranges P s')
    (h' : s'.Rearranges P s'') : s.Rearranges P s'' :=
  ⟨h'.scopes.trans h.scopes, h'.scope.trans h.scope,
    fun id cls found => h'.class id cls (h.class id cls found), h'.within⟩

namespace Eval

variable {α β : Type}

/-- An act that only looks at the state. -/
def Looks (x : Eval α) : Prop := ∀ s, endState (x s) = s

namespace Looks

/-- To look twice is to look. -/
theorem bind {x : Eval α} {f : α → Eval β} (hx : Looks x) (hf : ∀ v, Looks (f v)) :
    Looks (x >>= f) := by
  intro s
  have same := hx s
  rw [endState_bind]
  cases hs : x s with
  | error interrupt s' =>
    rw [hs] at same
    exact same
  | ok v s' =>
    rw [hs] at same
    cases same
    exact hf v _

theorem pure (value : α) : Looks (Pure.pure value) := fun _ => rfl

theorem throw (interrupt : Interrupt) : Looks (MonadExcept.throw interrupt : Eval α) := fun _ => rfl

theorem get : Looks MonadState.get := fun _ => rfl

/-- Everything that only looks at the state is covered by what looking is closed under. -/
theorem plain : Plain @Looks := ⟨pure, bind, get, fun interrupt _ => throw interrupt⟩

end Looks

/-- An act leaves the scopes alone and brings into the heap, or answers with, only what has a
property. -/
def Rearranges (P : Value → Prop) (x : Eval α) (good : α → State → Prop) (s : State) : Prop :=
  Ends (x s) (fun v s' => s.Rearranges P s' ∧ good v s') fun _ s' => s.Rearranges P s'

namespace Rearranges

variable {P : Value → Prop} {s : State} {good : α → State → Prop}

theorem pure (within : s.Within P) {value : α} (h : good value s) :
    Rearranges P (Pure.pure value) good s :=
  ⟨.refl within, h⟩

theorem throw (within : s.Within P) (interrupt : Interrupt) :
    Rearranges P (MonadExcept.throw interrupt : Eval α) good s :=
  State.Rearranges.refl within

/-- The second act begins with the same scopes, and with an answer that has the property. -/
theorem bind {x : Eval α} {f : α → Eval β} {good' : β → State → Prop}
    (hx : Rearranges P x good s)
    (hf : ∀ v s', s.Rearranges P s' → good v s' → Rearranges P (f v) good' s') :
    Rearranges P (x >>= f) good' s := by
  refine Ends.bind (Ends.imp hx (fun v s' h => ?_) fun _ _ h => h)
  exact Ends.imp (hf v s' h.1 h.2) (fun _ _ h' => ⟨h.1.trans h'.1, h'.2⟩) fun _ _ h' => h.1.trans h'

/-- An act that looks first.  What it has seen is true of the state. -/
theorem looks {x : Eval α} {f : α → Eval β} {good' : β → State → Prop} (hx : Looks x)
    (within : s.Within P) (hf : ∀ v, x s = .ok v s → Rearranges P (f v) good' s) :
    Rearranges P (x >>= f) good' s := by
  have same := hx s
  refine Ends.bind ?_
  cases hs : x s with
  | error interrupt s' =>
    rw [hs] at same
    cases same
    exact State.Rearranges.refl within
  | ok v s' =>
    rw [hs] at same
    cases same
    exact hf v hs

/-- A look at the state, whatever the answer. -/
theorem of_looks {x : Eval α} (hx : Looks x) (within : s.Within P) :
    Rearranges P x (fun _ _ => True) s := by
  have same := hx s
  unfold Rearranges
  cases hs : x s with
  | error interrupt s' =>
    rw [hs] at same
    cases same
    exact State.Rearranges.refl within
  | ok v s' =>
    rw [hs] at same
    cases same
    exact ⟨.refl within, trivial⟩

/-- An act that begins with a look at the state. -/
theorem get_bind {f : State → Eval β} {good : β → State → Prop} (h : Rearranges P (f s) good s) :
    Rearranges P (MonadState.get >>= f) good s :=
  h

/-- Only the scopes and the heap count. -/
theorem of_same {x : Eval α} (within : s.Within P) (scopes : (endState (x s)).scopes = s.scopes)
    (heap : (endState (x s)).heap = s.heap) (scope : (endState (x s)).scope = s.scope) :
    Rearranges P x (fun _ _ => True) s := by
  have rearranges : s.Rearranges P (endState (x s)) := by
    refine ⟨scopes, scope, fun id cls found => heap ▸ found, ?_⟩
    have store : (endState (x s)).store = s.store := by
      simp only [State.store, scopes, heap]
    rw [State.Within, store]
    exact within
  unfold Rearranges
  cases hs : x s with
  | error interrupt s' =>
    rw [hs] at rearranges
    exact rearranges
  | ok v s' =>
    rw [hs] at rearranges
    exact ⟨rearranges, trivial⟩

/-! ## 2. Changes of the heap

What is in the heap after a change has been there before or has been put there. -/

/-- A change of the heap that keeps classes and brings in nothing without the property. -/
theorem modifyHeap {change : Heap → Heap}
    (kept : ∀ id cls, s.heap.class? id = some cls → (change s.heap).class? id = some cls)
    (within : ∀ value, Store.Holds ⟨s.scopes, change s.heap⟩ value → P value) :
    Rearranges P (Eval.modifyHeap change) (fun _ _ => True) s :=
  ⟨⟨rfl, rfl, kept, within⟩, trivial⟩

/-- A new instance has no fields, so its class is all that it brings in. -/
theorem newInstance (within : s.Within P) (cls : Class) (hcls : P (.callable (.class cls)))
    (payload : Option Payload) :
    Rearranges P (Eval.newInstance cls payload) (fun id s' => s'.heap.class? id = some cls) s := by
  refine ⟨⟨rfl, rfl, fun _ _ found => Heap.class?_add_of_some found cls payload, ?_⟩, ?_⟩
  · refine Store.holds_heap within (fun id found hfound => ?_) (fun id name value found => ?_)
      (fun _ _ _ found => within _ (.item found)) fun _ _ found => within _ (.element found)
    · change (s.heap.add cls payload).2.class? id = some found at hfound
      rw [Heap.class?_add] at hfound
      split at hfound
      · cases hfound
        exact hcls
      · exact within _ (.class hfound)
    · change (s.heap.add cls payload).2.field? id name = some value at found
      rw [Heap.field?_add] at found
      exact within _ (.field found)
  · change (s.heap.add cls payload).2.class? s.heap.instances.size = some cls
    rw [Heap.class?_add, if_pos rfl]

/-- A new storage holds the items that it is given. -/
theorem newStorage (within : s.Within P) {items : Array Value} (hitems : ∀ value ∈ items, P value) :
    Rearranges P (Eval.newStorage items) (fun _ _ => True) s := by
  refine ⟨⟨rfl, rfl, fun _ _ h => h, ?_⟩, trivial⟩
  refine Store.holds_heap within (fun _ _ found => within _ (.class found))
    (fun _ _ _ found => within _ (.field found)) (fun storage index value found => ?_)
    fun _ _ found => within _ (.element found)
  rcases Heap.item?_addStorage found with new | old
  · exact hitems value new
  · exact within _ (.item old)

/-- A field holds the value that it is given. -/
theorem setField (within : s.Within P) (self : InstanceId) (name : String) {value : Value}
    (hvalue : P value) :
    Rearranges P (Eval.modifyHeap (·.setField self name value)) (fun _ _ => True) s := by
  refine modifyHeap (by simp) (Store.holds_heap within (fun id cls found => ?_)
    (fun id other found hfound => ?_) (fun _ _ _ found => within _ (.item found))
    fun _ _ found => within _ (.element found))
  · rw [Heap.class?_setField] at found
    exact within _ (.class found)
  · rcases Heap.field?_setField hfound with rfl | old
    · exact hvalue
    · exact within _ (.field old)

/-- A payload has no values in it. -/
theorem within_setPayload (within : s.Within P) (self : InstanceId) (payload : Payload) :
    ∀ value, Store.Holds ⟨s.scopes, s.heap.setPayload self payload⟩ value → P value := by
  refine Store.holds_heap within (fun id cls found => ?_) (fun id name value found => ?_)
    (fun _ _ _ found => within _ (.item found)) fun _ _ found => within _ (.element found)
  · rw [Heap.class?_setPayload] at found
    exact within _ (.class found)
  · rw [Heap.field?_setPayload] at found
    exact within _ (.field found)

theorem setPayload (within : s.Within P) (self : InstanceId) (payload : Payload) :
    Rearranges P (Eval.modifyHeap (·.setPayload self payload)) (fun _ _ => True) s :=
  modifyHeap (by simp) (within_setPayload within self payload)

theorem pushItem (within : s.Within P) (storage : StorageId) {value : Value} (hvalue : P value) :
    Rearranges P (Eval.modifyHeap (·.pushItem storage value)) (fun _ _ => True) s := by
  refine modifyHeap (fun _ _ h => h) (Store.holds_heap within
    (fun _ _ found => within _ (.class found)) (fun _ _ _ found => within _ (.field found))
    (fun _ _ _ found => ?_) fun _ _ found => within _ (.element found))
  rcases Heap.item?_pushItem found with rfl | old
  · exact hvalue
  · exact within _ (.item old)

/-- A storage holds the value that it is given. -/
theorem setItem (within : s.Within P) (storage : StorageId) (place : Nat) {value : Value}
    (hvalue : P value) :
    Rearranges P (Eval.modifyHeap (·.setItem storage place value)) (fun _ _ => True) s := by
  refine modifyHeap (fun _ _ h => h) (Store.holds_heap within
    (fun _ _ found => within _ (.class found)) (fun _ _ _ found => within _ (.field found))
    (fun _ _ _ found => ?_) fun _ _ found => within _ (.element found))
  rcases Heap.item?_setItem found with rfl | old
  · exact hvalue
  · exact within _ (.item old)

/-- A chain is changed by a new element at one of its ends. -/
theorem modifyChain (within : s.Within P) (self : InstanceId) (line : Nat)
    {change : Nodes Value → Chain → Chain × Nodes Value}
    (elements : ∀ nodes chain id node, (change nodes chain).2.node? id = some node →
      P node.element ∨ ∃ old, nodes.node? id = some old ∧ old.element = node.element) :
    Rearranges P (Eval.modifyChain self line change) (fun _ _ => True) s := by
  refine looks (Looks.plain.linkedChain self line) within fun chain _ => ?_
  have changed : ∀ value,
      Store.Holds ⟨s.scopes, { s.heap with nodes := (change s.heap.nodes chain).2 }⟩ value →
        P value := by
    refine Store.holds_heap within (fun _ _ found => within _ (.class found))
      (fun _ _ _ found => within _ (.field found)) (fun _ _ _ found => within _ (.item found))
      fun id node found => ?_
    rcases elements _ _ id node found with new | ⟨old, hold, same⟩
    · exact new
    · rw [← same]
      exact within _ (.element hold)
  have last := within_setPayload
    (s := { s with heap := { s.heap with nodes := (change s.heap.nodes chain).2 } }) changed self
    (.linkedList (change s.heap.nodes chain).1)
  refine modifyHeap (fun id cls found => ?_) last
  rw [Heap.class?_setPayload]
  exact found

/-! ## 3. Operators and the console

These answer with data, or with what they have found. -/

variable (harmless : Harmless P)

/-- Answers that have the property. -/
abbrev Good (P : Value → Prop) (value : Value) (_ : State) : Prop := P value

include harmless

/-- Numbers are data. -/
theorem number (within : s.Within P) (x : Float) :
    Rearranges P (Pure.pure (.number x)) (Good P) s :=
  pure within (harmless.data _ nofun)

theorem unary (within : s.Within P) (op : UnaryOp) (line : Nat) (operand : Value) :
    Rearranges P (Eval.unary op line operand) (Good P) s := by
  unfold Eval.unary
  split
  · exact number harmless within _
  · exact throw within _
  · exact pure within (harmless.data _ nofun)

theorem arithmetic (within : s.Within P) (op : BinaryOp) (line : Nat) (x y : Float) :
    Rearranges P (Eval.arithmetic op line x y) (Good P) s := by
  unfold Eval.arithmetic
  split
  · exact number harmless within _
  · exact number harmless within _
  · split
    · exact throw within _
    · exact number harmless within _
  all_goals exact pure within (harmless.data _ nofun)

/-- Operators answer with data. -/
theorem binary (within : s.Within P) (op : BinaryOp) (line : Nat) (left right : Value) :
    Rearranges P (Eval.binary op line left right) (Good P) s := by
  unfold Eval.binary
  split
  · exact pure within (harmless.data _ nofun)
  · exact pure within (harmless.data _ nofun)
  · split
    · exact number harmless within _
    · exact pure within (harmless.data _ nofun)
    · exact throw within _
  · split
    · exact arithmetic harmless within _ _ _ _
    · exact throw within _

omit harmless in
/-- What is found in the scopes has the property. -/
theorem readVariable (within : s.Within P) (id : Id) (name : String) (line : Nat) :
    Rearranges P (Eval.readVariable id name line) (Good P) s := by
  refine get_bind ?_
  dsimp only
  split
  · rename_i value found
    refine pure within ?_
    split at found
    · simp only [Scopes.getAt?, Option.bind_eq_some_iff] at found
      obtain ⟨scope, -, found⟩ := found
      exact within _ (.bound found)
    · exact within _ (.bound found)
  · exact throw within _

omit harmless in
theorem printValue (within : s.Within P) (value : Value) (line : Nat) :
    Rearranges P (Eval.printValue value line) (fun _ _ => True) s := by
  refine of_same within ?_ ?_ ?_
  all_goals
    unfold Eval.printValue
    dsimp only
    split <;> rfl

omit harmless in
/-- A call answers with the value of its body or with the receiver that is found in the scopes. -/
theorem callResult (within : s.Within P) (closure : Closure) {completion : Completion}
    (hvalue : P completion.value) :
    Rearranges P (Eval.callResult closure completion) (Good P) s := by
  unfold Eval.callResult
  split
  · refine get_bind ?_
    split
    · rename_i receiver found
      simp only [Scopes.getAt?, Option.bind_eq_some_iff] at found
      obtain ⟨scope, -, found⟩ := found
      exact pure within (within _ (.bound found))
    · exact throw within _
  · exact pure within hvalue

/-! ## 4. Built-in functions and methods

All of these are put together from what is above. -/

/-- A new list is an instance of a built-in class. -/
theorem newList (within : s.Within P) {items : List Value} (hitems : ∀ value ∈ items, P value) :
    Rearranges P (Eval.newList items) (Good P) s := by
  refine bind (newStorage within fun value h => hitems value (List.mem_toArray.1 h))
    fun storage s₁ h₁ _ => ?_
  exact bind (newInstance h₁.within _ (harmless.builtin .list) _) fun _ _ h₂ _ =>
    pure h₂.within (harmless.data _ nofun)

theorem newIterator (within : s.Within P) (kind : BuiltinClass) (iterator : Iterator) :
    Rearranges P (Eval.newIterator kind iterator) (Good P) s :=
  bind (newInstance within _ (harmless.builtin kind) _) fun _ _ h _ =>
    pure h.within (harmless.data _ nofun)

theorem inputLine (within : s.Within P) (line : Nat) :
    Rearranges P (Eval.inputLine line) (Good P) s := by
  refine bind (of_same within rfl rfl rfl) fun found s₁ h₁ _ => ?_
  cases found with
  | line text => exact pure h₁.within (harmless.data _ nofun)
  | ended => exact pure h₁.within (harmless.data _ nofun)
  | invalid => exact throw h₁.within _
  | starved => exact throw h₁.within _

/-- Built-in functions answer with data. -/
theorem callFunction (within : s.Within P) (function : BuiltinFunction) (arguments : List Value)
    (line : Nat) : Rearranges P (Eval.callFunction function arguments line) (Good P) s := by
  unfold Eval.callFunction
  split
  · exact bind (of_same within rfl rfl rfl) fun _ _ h₁ _ => number harmless h₁.within _
  · exact inputLine harmless within line
  · unfold Eval.toText
    split
    · exact pure within (harmless.data _ nofun)
    · exact pure within (harmless.data _ nofun)
    · exact throw within _
  · unfold Eval.toNumber
    split
    · exact number harmless within _
    · split
      · exact number harmless within _
      · exact throw within _
    · exact throw within _
  · exact looks (Looks.plain.numberArgument _ _ _) within fun _ _ => number harmless within _
  · exact looks (Looks.plain.numberArgument _ _ _) within fun _ _ => number harmless within _
  · exact looks (Looks.plain.numberArgument _ _ _) within fun _ _ => number harmless within _
  · exact looks (Looks.plain.numberArgument _ _ _) within fun _ _ => number harmless within _
  · exact looks (Looks.plain.numberArgument _ _ _) within fun _ _ => number harmless within _
  · refine looks (Looks.plain.numberArgument _ _ _) within fun _ _ => ?_
    split
    · exact throw within _
    · exact number harmless within _
  · exact throw within _

/-- The item at hand is in the heap. -/
theorem iteratorCurrent (within : s.Within P) (self : InstanceId) (line : Nat) :
    Rearranges P (Eval.iteratorCurrent self line) (Good P) s := by
  refine looks (Looks.plain.heldIterator self line) within fun iterator _ => get_bind ?_
  split
  · rename_i value current
    refine pure within ?_
    unfold Heap.current? at current
    split at current
    · split at current
      · exact within _ (.item current)
      · obtain ⟨id, node, hnode, rfl⟩ := Nodes.element_of_first? current
        exact within _ (.element hnode)
      · cases current
        exact harmless.data _ nofun
    · cases current
  · exact throw within _

omit harmless in
theorem iteratorAdvance (within : s.Within P) (self : InstanceId) (line : Nat) :
    Rearranges P (Eval.iteratorAdvance self line) (fun _ _ => True) s :=
  looks (Looks.plain.heldIterator self line) within fun _ _ =>
    modifyHeap (by simp) (within_setPayload within self _)

omit harmless in
/-- A loop keeps the iterator if it is to be called. -/
theorem cursorFor (within : s.Within P) {iterator : Value} (hiterator : P iterator) :
    Rearranges P (Eval.cursorFor iterator)
      (fun cursor _ => ∀ value, cursor = .protocol value → P value) s := by
  have protocol : ∀ value, Cursor.protocol iterator = .protocol value → P value := by
    rintro _ ⟨⟩
    exact hiterator
  unfold Eval.cursorFor
  split
  · refine get_bind ?_
    dsimp only
    split
    · exact pure within fun _ direct => by cases direct
    · exact pure within protocol
  · exact pure within protocol

/-- One case for each built-in method.  What it stores is among its arguments, and what it answers
with is in the heap, or is data, or is new. -/
theorem callMethod (within : s.Within P) (method : BuiltinMethod) (self : InstanceId)
    {arguments : List Value} (harguments : ∀ value ∈ arguments, P value) (line : Nat) :
    Rearranges P (Eval.callMethod method self arguments line) (Good P) s := by
  unfold Eval.callMethod
  split
  · refine bind (newStorage within fun _ h => by simp at h) fun storage s₁ h₁ _ => ?_
    exact bind (setPayload h₁.within self _) fun _ _ h₂ _ =>
      pure h₂.within (harmless.data _ nofun)
  · have hvalue := harguments _ List.mem_cons_self
    exact looks (Looks.plain.listStorage _ _) within fun storage _ =>
      bind (pushItem within storage hvalue) fun _ _ h₁ _ =>
        pure h₁.within (harmless.data _ nofun)
  · refine looks (Looks.plain.listStorage _ _) within fun storage _ =>
      looks (Looks.plain.index _ _ _) within fun i _ => get_bind ?_
    split
    · rename_i value found
      exact pure within (within _ (.item found))
    · exact throw within _
  · have hvalue := harguments _ (List.mem_cons_of_mem _ List.mem_cons_self)
    exact looks (Looks.plain.listStorage _ _) within fun storage _ =>
      looks (Looks.plain.index _ _ _) within fun i _ =>
        bind (setItem within storage i hvalue) fun _ _ h₁ _ => pure h₁.within hvalue
  · exact looks (Looks.plain.listStorage _ _) within fun _ _ => get_bind (number harmless within _)
  · exact looks (Looks.plain.listStorage _ _) within fun _ _ => newIterator harmless within _ _
  · exact bind (setPayload within self _) fun _ _ h₁ _ => pure h₁.within (harmless.data _ nofun)
  · refine bind (modifyChain within self line fun nodes chain id node found => ?_) fun _ _ h₁ _ =>
      pure h₁.within (harmless.data _ nofun)
    rcases Nodes.element_of_pushBack found with new | old
    · exact Or.inl (new ▸ harguments _ List.mem_cons_self)
    · exact Or.inr old
  · refine bind (modifyChain within self line fun nodes chain id node found => ?_) fun _ _ h₁ _ =>
      pure h₁.within (harmless.data _ nofun)
    rcases Nodes.element_of_push found with new | old
    · exact Or.inl (new ▸ harguments _ List.mem_cons_self)
    · exact Or.inr old
  · refine looks (Looks.plain.linkedChain _ _) within fun chain _ => get_bind (pure within ?_)
    cases hfirst : s.heap.nodes.first? chain with
    | none => exact harmless.data _ nofun
    | some element =>
      obtain ⟨id, node, hnode, rfl⟩ := Nodes.element_of_first? hfirst
      exact within _ (.element hnode)
  · exact looks (Looks.plain.linkedChain _ _) within fun _ _ => get_bind (number harmless within _)
  · exact looks (Looks.plain.linkedChain _ _) within fun _ _ => pure within (harmless.data _ nofun)
  · exact looks (Looks.plain.linkedChain _ _) within fun _ _ => newIterator harmless within _ _
  · refine looks (Looks.plain.rangeBound _ _) within fun first _ =>
      looks (Looks.plain.rangeBound _ _) within fun last _ =>
        looks (Looks.plain.rangeBound _ _) within fun step _ => ?_
    split
    · exact throw within _
    · exact bind (setPayload within self _) fun _ _ h₁ _ => pure h₁.within (harmless.data _ nofun)
  · exact pure within (harmless.data _ nofun)
  · exact looks (Looks.plain.iteratorHasItems _ _) within fun _ _ =>
      pure within (harmless.data _ nofun)
  · exact iteratorCurrent harmless within self line
  · exact bind (iteratorAdvance within self line) fun _ _ h₁ _ =>
      pure h₁.within (harmless.data _ nofun)
  · exact throw within _

end Rearranges

end Eval

end Lox
