/-
# Evaluations that are alike

Two evaluations are alike (`Eval.Alike`) if from states that are alike they end in the same way, in
states that are alike again.  Every act of an evaluator does so on values, ids and lines that are
alike: nothing that is done depends on an id but through the resolution, and nothing on a line, save
the line of an error.

What an evaluator does without looking at the scopes does so for every kinship (`Likeness.run`), and
only scopes, variables and declarations are left to see to.
-/
import Lox.Proofs.Eval.Kinship
import Lox.Proofs.Scoping.Likeness
import Lox.Proofs.Value.Likeness

namespace Lox

variable {m m' : Likeness}

/-! ## 1. States and ends

States are alike if they differ only in the ids and lines of the code that they keep. -/

/-- States that are alike. -/
structure State.Alike (m : Likeness) (s s' : State) : Prop where
  scopes : s.scopes.Rel (Value.Alike m) s'.scopes
  scope : s.scope = s'.scope
  depth : s.depth = s'.depth
  heap : s.heap.Alike m s'.heap
  stamp : s.stamp = s'.stamp
  resolution : s.resolution.Alike m s'.resolution
  output : s.output = s'.output
  input : s.input = s'.input
  clock : s.clock = s'.clock

/-- Interrupts of one kind: an error has the same cause. -/
inductive Interrupt.Alike (m : Likeness) : Interrupt → Interrupt → Prop
  | error (cause : RuntimeCause) {line line' : Nat} (lines : m.lines line line') :
      Alike m (.error ⟨cause, line⟩) (.error ⟨cause, line'⟩)
  | starved : Alike m .starved .starved
  | outOfFuel : Alike m .outOfFuel .outOfFuel
  | misuse : Alike m .misuse .misuse

/-- Completions that are alike. -/
inductive Completion.Alike (m : Likeness) : Completion → Completion → Prop
  | normal : Alike m .normal .normal
  | returned {v v' : Value} (value : v.Alike m v') : Alike m (.returned v) (.returned v')

theorem Completion.Alike.value {c c' : Completion} :
    c.Alike m c' → c.value.Alike m c'.value
  | normal => .nil
  | returned value => value

/-- Cursors that are alike. -/
inductive Cursor.Alike (m : Likeness) : Cursor → Cursor → Prop
  | direct (id : InstanceId) : Alike m (.direct id) (.direct id)
  | protocol {v v' : Value} (iterator : v.Alike m v') : Alike m (.protocol v) (.protocol v')

/-- Ends of evaluations that are alike. -/
inductive EndAlike {α β : Type} (m : Likeness) (R : α → β → Prop) :
    EStateM.Result Interrupt State α → EStateM.Result Interrupt State β → Prop
  | ok {v : α} {v' : β} {s s' : State} (value : R v v') (state : s.Alike m s') :
      EndAlike m R (.ok v s) (.ok v' s')
  | error {i i' : Interrupt} {s s' : State} (interrupt : i.Alike m i') (state : s.Alike m s') :
      EndAlike m R (.error i s) (.error i' s')

namespace Eval

variable {α β γ δ : Type} {R : α → β → Prop} {S : γ → δ → Prop}

/-- Evaluations that end alike from states that are alike. -/
def Alike (m : Likeness) (R : α → β → Prop) (x : Eval α) (y : Eval β) : Prop :=
  ∀ s s' : State, s.Alike m s' → EndAlike m R (x s) (y s')

end Eval

/-! ## 2. Likeness is a kinship

A kinship is the general notion of one value standing for another.  Likeness is one that also lets
ids and lines vary. -/

/-- What may stand for what in evaluations that are alike. -/
def Likeness.run (m : Likeness) : RunKinship where
  toKinship := m.kinship
  environments env env' := env.scopes.Rel (Value.Alike m) env'.scopes ∧ env.scope = env'.scope ∧
    env.resolution.Alike m env'.resolution
  lines := m.lines
  causes := Eq
  same_cause _ := rfl

/-- Likeness of states is an instance of kinship, so all that is known of kinship applies. -/
theorem State.alike_eq (m : Likeness) : State.Alike m = State.Kin m.run := by
  funext s s'
  exact propext
    ⟨fun like => ⟨⟨like.scopes, like.scope, like.resolution⟩, like.depth,
        Heap.alike_eq m ▸ like.heap, like.stamp, like.output, like.input, like.clock⟩,
      fun kin => ⟨kin.environment.1, kin.environment.2.1, kin.depth, Heap.alike_eq m ▸ kin.heap,
        kin.stamp, kin.environment.2.2, kin.output, kin.input, kin.clock⟩⟩

/-- As for states, for the ways in which an evaluation can end early. -/
theorem Interrupt.alike_eq (m : Likeness) : Interrupt.Alike m = Interrupt.Kin m.run := by
  funext i i'
  refine propext ⟨fun like => ?_, fun kin => ?_⟩
  · cases like with
    | error cause lines => exact .error rfl lines
    | starved => exact .starved
    | outOfFuel => exact .outOfFuel
    | misuse => exact .misuse
  · cases kin with
    | error causes lines =>
      cases causes
      exact .error _ lines
    | starved => exact .starved
    | outOfFuel => exact .outOfFuel
    | misuse => exact .misuse

theorem Cursor.alike_eq (m : Likeness) : Cursor.Alike m = Cursor.Kin m.kinship := by
  funext c c'
  refine propext ⟨fun like => ?_, fun kin => ?_⟩
  · cases like with
    | direct id => exact .direct id
    | protocol iterator => exact .protocol (Value.alike_eq m ▸ iterator)
  · cases kin with
    | direct id => exact .direct id
    | protocol iterator => exact .protocol (Value.alike_eq m ▸ iterator)

/-- As for states, for the ends of evaluations. -/
theorem EndAlike.eq {α β : Type} (m : Likeness) (R : α → β → Prop) :
    EndAlike m R = EndKin m.run R := by
  funext x y
  refine propext ⟨fun like => ?_, fun kin => ?_⟩
  · cases like with
    | ok value state => exact .ok value (State.alike_eq m ▸ state)
    | error interrupt state =>
      exact .error (Interrupt.alike_eq m ▸ interrupt) (State.alike_eq m ▸ state)
  · cases kin with
    | ok value state => exact .ok value (State.alike_eq m ▸ state)
    | error interrupt state =>
      exact .error (Interrupt.alike_eq m ▸ interrupt) (State.alike_eq m ▸ state)

namespace Eval

variable {α β γ δ : Type} {R : α → β → Prop} {S : γ → δ → Prop} {x : Eval α} {y : Eval β}

/-- Evaluations are alike just if they are kin. -/
theorem alike_iff_kin : Alike m R x y ↔ Kin m.run R x y := by
  unfold Alike Kin
  rw [State.alike_eq, EndAlike.eq]

namespace Alike

/-- A kinship of evaluations is a likeness. -/
theorem of_kin (h : Kin m.run R x y) : Alike m R x y := alike_iff_kin.2 h

theorem pure {v : α} {v' : β} (h : R v v') : Alike m R (Pure.pure v) (Pure.pure v') :=
  .of_kin (.pure h)

/-- Alike first, and alike on results that are alike. -/
theorem bind {f : α → Eval γ} {g : β → Eval δ} (h : Alike m R x y)
    (hf : ∀ v v', R v v' → Alike m S (f v) (g v')) : Alike m S (x >>= f) (y >>= g) :=
  .of_kin (.bind (alike_iff_kin.1 h) fun v v' value => alike_iff_kin.1 (hf v v' value))

theorem map {f : α → γ} {g : β → δ} (h : Alike m R x y) (hf : ∀ v v', R v v' → S (f v) (g v')) :
    Alike m S (f <$> x) (g <$> y) :=
  .of_kin (.map (alike_iff_kin.1 h) hf)

theorem get : Alike m (State.Alike m) MonadState.get MonadState.get := fun _ _ like => .ok like like

theorem throw {i i' : Interrupt} (h : i.Alike m i') :
    Alike m R (MonadExcept.throw i : Eval α) (MonadExcept.throw i' : Eval β) :=
  fun _ _ like => .error h like

/-- The same failure at lines that are alike. -/
theorem fail (cause : RuntimeCause) {line line' : Nat} (lines : m.lines line line') :
    Alike m R (Eval.fail cause line : Eval α) (Eval.fail cause line' : Eval β) :=
  .throw (.error cause lines)

/-- Updates are alike if they take states that are alike to states that are alike. -/
theorem modifyGet {f : State → α × State} {g : State → β × State}
    (h : ∀ s s' : State, s.Alike m s' → R (f s).1 (g s').1 ∧ (f s).2.Alike m (g s').2) :
    Alike m R (MonadStateOf.modifyGet f) (MonadStateOf.modifyGet g) :=
  fun s s' like => .ok (h s s' like).1 (h s s' like).2

theorem modify {f g : State → State} (h : ∀ s s' : State, s.Alike m s' → (f s).Alike m (g s')) :
    Alike m (· = ·) (MonadStateOf.modifyGet fun s => ((), f s) : Eval Unit)
      (MonadStateOf.modifyGet fun s => ((), g s)) :=
  .modifyGet fun s s' like => ⟨rfl, h s s' like⟩

/-- A choice that is the same for both. -/
theorem ite {p q : Prop} [Decidable p] [Decidable q] (same : p ↔ q) {x x' : Eval α} {y y' : Eval β}
    (h : Alike m R x y) (h' : Alike m R x' y') :
    Alike m R (if p then x else x') (if q then y else y') :=
  .of_kin (.ite same (alike_iff_kin.1 h) (alike_iff_kin.1 h'))

/-! ## 3. Scopes and calls

What looks at ids and lines needs to be seen to here: reading and writing variables, and the line of
a call. -/

/-- The scope that is entered is the same in both, so likeness is kept inside and behind. -/
theorem within (scope : ScopeId) (h : Alike m R x y) :
    Alike m R (Eval.within scope x) (Eval.within scope y) := by
  intro s s' like
  have inner := h { s with scope := scope } { s' with scope := scope } { like with scope := rfl }
  unfold Eval.within
  dsimp only
  cases hx : x { s with scope := scope } <;> cases hy : y { s' with scope := scope } <;>
    rw [hx, hy] at inner <;> cases inner
  · rename_i value state
    exact .ok value { state with scope := like.scope }
  · rename_i interrupt state
    exact .error interrupt { state with scope := like.scope }

/-- The number of calls in progress is the same in both, so both fail or neither does. -/
theorem nested {line line' : Nat} (lines : m.lines line line') (h : Alike m R x y) :
    Alike m R (Eval.nested line x) (Eval.nested line' y) := by
  intro s s' like
  have inner := h { s with depth := s.depth + 1 } { s' with depth := s'.depth + 1 }
    { like with depth := congrArg (· + 1) like.depth }
  change EndAlike m R (if maxDepth ≤ s.depth then _ else _) (if maxDepth ≤ s'.depth then _ else _)
  by_cases full : maxDepth ≤ s.depth
  · rw [if_pos full, if_pos (like.depth ▸ full)]
    exact .error (.error _ lines) like
  · rw [if_neg full, if_neg (like.depth ▸ full)]
    cases hx : x { s with depth := s.depth + 1 } <;>
      cases hy : y { s' with depth := s'.depth + 1 } <;> rw [hx, hy] at inner <;> cases inner
    · rename_i value state
      exact .ok value { state with depth := congrArg (· - 1) state.depth }
    · rename_i interrupt state
      exact .error interrupt { state with depth := congrArg (· - 1) state.depth }

/-- The next scope is the same in both. -/
theorem newScope (enclosing : ScopeId) :
    Alike m (· = ·) (Eval.newScope enclosing) (Eval.newScope enclosing) :=
  .modifyGet fun _ _ like =>
    ⟨like.scopes.size_eq, { like with scopes := like.scopes.add (some enclosing) }⟩

theorem defineIn (scope : ScopeId) (name : String) {v v' : Value} (value : v.Alike m v') :
    Alike m (· = ·) (Eval.defineIn scope name v) (Eval.defineIn scope name v') :=
  .modify fun _ _ like => { like with scopes := like.scopes.define scope name value }

theorem define (name : String) {v v' : Value} (value : v.Alike m v') :
    Alike m (· = ·) (Eval.define name v) (Eval.define name v') := by
  refine .bind .get fun s s' like => ?_
  rw [like.scope]
  exact .defineIn _ _ value

theorem childScope : Alike m (· = ·) Eval.childScope Eval.childScope := by
  refine .bind .get fun s s' like => ?_
  rw [like.scope]
  exact .newScope _

/-- The ids are alike, so the resolutions send both to the same scope. -/
theorem readVariable {id id' : Id} (ids : m.ids id id') (name : String) {line line' : Nat}
    (lines : m.lines line line') :
    Alike m (Value.Alike m) (Eval.readVariable id name line)
      (Eval.readVariable id' name line') := by
  refine .bind .get fun s s' like => ?_
  rw [like.resolution _ _ ids, like.scope]
  cases s'.resolution.binding id' with
  | «local» hops =>
    dsimp only
    rcases rel_cases (like.scopes.getAt? s'.scope hops name) with
      ⟨left, right⟩ | ⟨v, v', left, right, value⟩ <;> rw [left, right]
    · exact .fail _ lines
    · exact .pure value
  | global =>
    dsimp only
    rcases rel_cases (like.scopes.get? globalScope name) with
      ⟨left, right⟩ | ⟨v, v', left, right, value⟩ <;> rw [left, right]
    · exact .fail _ lines
    · exact .pure value

/-- As for reading, with values that are alike. -/
theorem writeVariable {target target' : Variable} (targets : target.Alike m target')
    {v v' : Value} (value : v.Alike m v') :
    Alike m (· = ·) (Eval.writeVariable target v) (Eval.writeVariable target' v') := by
  intro s s' like
  unfold Eval.writeVariable
  rw [like.resolution _ _ targets.id, targets.name.text, like.scope]
  have scopes : (fun scope => s.scopes.binds scope target'.name.text) =
      fun scope => s'.scopes.binds scope target'.name.text :=
    funext fun scope => like.scopes.binds_eq scope _
  have ancestors : s.scopes.ancestor? s'.scope = s'.scopes.ancestor? s'.scope :=
    funext fun hops => like.scopes.ancestor?_eq _ hops
  dsimp only
  rw [scopes, ancestors]
  split
  · exact .ok rfl { like with scope := rfl, scopes := like.scopes.define _ _ value }
  · exact .error (.error _ targets.name.line) like

theorem freshStamp : Alike m (· = ·) Eval.freshStamp Eval.freshStamp := .of_kin .freshStamp

/-! ## 4. Instances, operators and the console

Nothing here depends on an id, so each lemma is the one for kinships. -/

variable {line line' : Nat}

/-- Classes that are alike have instances that are alike. -/
theorem newInstance {cls cls' : Class} (classes : cls.Alike m cls') (payload : Option Payload) :
    Alike m (· = ·) (Eval.newInstance cls payload) (Eval.newInstance cls' payload) := by
  rw [Class.alike_eq] at classes
  exact .of_kin (.newInstance classes payload)

/-- Instances are the same, and their fields hold values that are alike. -/
theorem setField (id : InstanceId) (name : String) {v v' : Value} (value : v.Alike m v') :
    Alike m (· = ·) (Eval.modifyHeap (·.setField id name v))
      (Eval.modifyHeap (·.setField id name v')) := by
  rw [Value.alike_eq] at value
  exact .of_kin (.modifyHeap fun _ _ kin => kin.setField id name value)

theorem newList {items items' : List Value} (likes : List.Forall₂ (Value.Alike m) items items') :
    Alike m (Value.Alike m) (Eval.newList items) (Eval.newList items') := by
  rw [Value.alike_eq] at likes ⊢
  exact .of_kin (.newList likes)

/-- Values that are alike have the same text. -/
theorem printValue {v v' : Value} (value : v.Alike m v') (lines : m.lines line line') :
    Alike m (· = ·) (Eval.printValue v line) (Eval.printValue v' line') := by
  rw [Value.alike_eq] at value
  exact .of_kin (.printValue value lines)

theorem unary (op : UnaryOp) (lines : m.lines line line') {v v' : Value} (operand : v.Alike m v') :
    Alike m (Value.Alike m) (Eval.unary op line v) (Eval.unary op line' v') := by
  rw [Value.alike_eq] at operand ⊢
  exact .of_kin (.unary op lines operand)

/-- Operators look at numbers, texts and the identity of instances, which are the same in both. -/
theorem binary (op : BinaryOp) (lines : m.lines line line') {v v' w w' : Value}
    (left : v.Alike m v') (right : w.Alike m w') :
    Alike m (Value.Alike m) (Eval.binary op line v w) (Eval.binary op line' v' w') := by
  rw [Value.alike_eq] at left right ⊢
  exact .of_kin (.binary op lines left right)

/-- Values that are alike are both true or both false. -/
theorem decides_eq (op : LogicalOp) {v v' : Value} (left : v.Alike m v') :
    decides op v = decides op v' := by
  rw [Value.alike_eq] at left
  exact Kin.decides_eq op left

theorem cursorFor {v v' : Value} (iterator : v.Alike m v') :
    Alike m (Cursor.Alike m) (Eval.cursorFor v) (Eval.cursorFor v') := by
  rw [Value.alike_eq] at iterator
  rw [Cursor.alike_eq]
  exact .of_kin (.cursorFor iterator)

theorem iteratorHasItems (self : InstanceId) (lines : m.lines line line') :
    Alike m (· = ·) (Eval.iteratorHasItems self line) (Eval.iteratorHasItems self line') :=
  .of_kin (.iteratorHasItems self lines)

theorem iteratorCurrent (self : InstanceId) (lines : m.lines line line') :
    Alike m (Value.Alike m) (Eval.iteratorCurrent self line)
      (Eval.iteratorCurrent self line') := by
  rw [Value.alike_eq]
  exact .of_kin (.iteratorCurrent self lines)

theorem iteratorAdvance (self : InstanceId) (lines : m.lines line line') :
    Alike m (· = ·) (Eval.iteratorAdvance self line) (Eval.iteratorAdvance self line') :=
  .of_kin (.iteratorAdvance self lines)

/-- A built-in function does the same on arguments that are alike. -/
theorem callFunction (function : BuiltinFunction) {values values' : List Value}
    (likes : List.Forall₂ (Value.Alike m) values values') (lines : m.lines line line') :
    Alike m (Value.Alike m) (Eval.callFunction function values line)
      (Eval.callFunction function values' line') := by
  rw [Value.alike_eq] at likes ⊢
  exact .of_kin (.callFunction function likes lines)

/-- A built-in method does the same on arguments that are alike. -/
theorem callMethod (method : BuiltinMethod) (self : InstanceId) {values values' : List Value}
    (likes : List.Forall₂ (Value.Alike m) values values') (lines : m.lines line line') :
    Alike m (Value.Alike m) (Eval.callMethod method self values line)
      (Eval.callMethod method self values' line') := by
  rw [Value.alike_eq] at likes ⊢
  exact .of_kin (.callMethod method self likes lines)

/-! ## 5. Properties, classes and functions

Declarations are kept in closures and classes as they are written, so those are alike and not
equal. -/

/-- Bound methods are alike in the receiver and in the method. -/
theorem bindMethod (receiver : InstanceId) {method method' : Method}
    (methods : method.Alike m method') :
    Alike m (BoundMethod.Alike m) (Eval.bindMethod receiver method)
      (Eval.bindMethod receiver method') := by
  cases methods with
  | builtin method => exact .pure ⟨rfl, .builtin method⟩
  | declared closure =>
    simp only [Eval.bindMethod]
    rw [closure.scope]
    refine .bind (.newScope _) ?_
    rintro scope _ rfl
    refine .bind (.defineIn _ _ (.inst receiver)) fun _ _ _ => .bind .freshStamp ?_
    rintro stamp _ rfl
    exact .pure ⟨rfl, .declared { closure with stamp := rfl, scope := rfl }⟩

/-- Both find a field, both a method, or neither anything. -/
theorem getProperty (id : InstanceId) (name : String) (lines : m.lines line line') :
    Alike m (Value.Alike m) (Eval.getProperty id name line) (Eval.getProperty id name line') := by
  refine .bind .get fun s s' like => ?_
  have heap : s.heap.Kin m.kinship s'.heap := Heap.alike_eq m ▸ like.heap
  dsimp only
  rcases rel_cases (heap.field? id name) with
    ⟨left, right⟩ | ⟨v, v', left, right, value⟩ <;> rw [left, right]
  · have found := rel_bind (heap.class? id) fun _ _ cls => cls.findMethod? name
    rcases rel_cases found with ⟨left, right⟩ | ⟨method, method', left, right, methods⟩ <;>
      rw [left, right]
    · exact .fail _ lines
    · exact .map (.bindMethod id (Method.alike_eq m ▸ methods)) fun _ _ bound =>
        .callable (.bound bound)
  · exact .pure (Value.alike_eq m ▸ value)

/-- Both superclasses are found in the same scope. -/
theorem superMethod {id id' : Id} (ids : m.ids id id') (lines : m.lines line line')
    {method method' : Name} (methods : method.Alike m method') :
    Alike m (Value.Alike m) (Eval.superMethod id line method)
      (Eval.superMethod id' line' method') := by
  refine .bind .get fun s s' like => ?_
  rw [like.resolution _ _ ids, like.scope, methods.text]
  cases s'.resolution.binding id' with
  | global => exact .fail _ lines
  | «local» hops =>
    cases hops with
    | zero => exact .fail _ lines
    | succ inner =>
      dsimp only
      rcases rel_cases (like.scopes.getAt? s'.scope (inner + 1) "super") with
        ⟨left, right⟩ | ⟨cls, cls', left, right, classes⟩ <;> rw [left, right]
      · exact .fail _ lines
      rcases rel_cases (like.scopes.getAt? s'.scope inner "this") with
        ⟨left, right⟩ | ⟨receiver, receiver', left, right, receivers⟩ <;> rw [left, right]
      · cases classes with
        | callable callable => cases callable <;> exact .fail _ lines
        | _ => exact .fail _ lines
      · cases classes with
        | callable callable =>
          cases callable with
          | «class» classes =>
            cases receivers with
            | inst id =>
              dsimp only
              rcases rel_cases (classes.findMethod? method'.text) with
                ⟨left, right⟩ | ⟨found, found', left, right, likeFound⟩ <;> rw [left, right]
              · exact .fail _ methods.line
              · exact .map (.bindMethod id likeFound) fun _ _ bound => .callable (.bound bound)
            | _ => exact .fail _ lines
          | _ => exact .fail _ lines
        | _ => exact .fail _ lines

/-- Closures are alike if their declarations are. -/
theorem newClosure {declaration declaration' : FunDecl}
    (declarations : declaration.Alike m declaration') (scope : ScopeId) (isInitializer : Bool) :
    Alike m (Closure.Alike m) (Eval.newClosure declaration scope isInitializer)
      (Eval.newClosure declaration' scope isInitializer) := by
  refine .bind .freshStamp ?_
  rintro stamp _ rfl
  exact .pure ⟨rfl, declarations, rfl, rfl⟩

/-- By induction on the two lists of declarations. -/
theorem newMethods (scope : ScopeId) {declarations declarations' : List FunDecl}
    (likes : FunDecl.AlikeAll m declarations declarations') {methods methods' : Bindings Closure}
    (made : methods.Rel (Closure.Alike m) methods') :
    Alike m (fun methods methods' => methods.Rel (Closure.Alike m) methods')
      (Eval.newMethods scope declarations methods)
      (Eval.newMethods scope declarations' methods') := by
  induction declarations generalizing declarations' methods methods' with
  | nil =>
    cases likes
    exact .pure made
  | cons declaration rest ih =>
    cases likes with
    | cons first others =>
      rw [Eval.newMethods, Eval.newMethods, first.isInitializer_eq, first.name.text]
      exact .bind (.newClosure first _ _) fun _ _ closure => ih others (made.insert _ closure)

/-- Both values are classes, or neither is. -/
theorem superclassOf {name name' : Name} (names : name.Alike m name') {v v' : Value}
    (value : v.Alike m v') :
    Alike m (Class.Alike m) (Eval.superclassOf name v) (Eval.superclassOf name' v') := by
  rw [Value.alike_eq] at value
  rw [Class.alike_eq]
  exact .of_kin (.superclassOf names.line value)

theorem methodScope {superclass superclass' : Option Class}
    (superclasses : Option.Rel (Class.Alike m) superclass superclass') :
    Alike m (· = ·) (Eval.methodScope superclass) (Eval.methodScope superclass') := by
  cases superclasses with
  | none => exact .map .get fun _ _ like => like.scope
  | some classes =>
    refine .bind .childScope ?_
    rintro scope _ rfl
    exact .bind (.defineIn _ _ (.callable (.class classes))) fun _ _ _ => .pure rfl

/-- Classes that are alike are defined under the same name. -/
theorem declareClass {name name' : Name} (names : name.Alike m name')
    {superclass superclass' : Option Class}
    (superclasses : Option.Rel (Class.Alike m) superclass superclass')
    {methods methods' : List FunDecl} (likes : FunDecl.AlikeAll m methods methods') :
    Alike m (· = ·) (Eval.declareClass name superclass methods)
      (Eval.declareClass name' superclass' methods') := by
  unfold Eval.declareClass
  rw [names.text]
  refine .bind (.define _ .nil) fun _ _ _ => .bind (.methodScope superclasses) ?_
  rintro scope _ rfl
  refine .bind .freshStamp ?_
  rintro stamp _ rfl
  refine .bind (.newMethods _ likes .empty) fun made made' closures => .define _ ?_
  have info : ClassInfo.Alike m ⟨stamp, name'.text, made⟩ ⟨stamp, name'.text, made'⟩ :=
    ⟨rfl, rfl, closures⟩
  cases superclasses with
  | none => exact .callable (.class (.base info))
  | some classes => exact .callable (.class (.derived info classes))

/-- Names that are alike have the same text, and the lists are equally long. -/
theorem defineAll (scope : ScopeId) {names names' : List Name}
    (likes : List.Forall₂ (Name.Alike m) names names') {values values' : List Value}
    (likeValues : List.Forall₂ (Value.Alike m) values values') :
    Alike m (· = ·) (Eval.defineAll scope names values) (Eval.defineAll scope names' values') := by
  induction likes generalizing values values' with
  | nil => exact .pure rfl
  | cons name names ih =>
    cases likeValues with
    | nil => exact .pure rfl
    | cons value values =>
      rw [Eval.defineAll, Eval.defineAll, name.text]
      exact .bind (.defineIn _ _ value) fun _ _ _ => ih values

/-- What a call gives depends on how its body ends and on whether it is an initializer. -/
theorem callResult {closure closure' : Closure} (closures : closure.Alike m closure')
    {completion completion' : Completion} (completions : completion.Alike m completion') :
    Alike m (Value.Alike m) (Eval.callResult closure completion)
      (Eval.callResult closure' completion') := by
  unfold Eval.callResult
  rw [closures.isInitializer, closures.scope]
  refine .ite Iff.rfl (.bind .get fun s s' like => ?_) (.pure completions.value)
  rcases rel_cases (like.scopes.getAt? closure'.scope 0 "this") with
    ⟨left, right⟩ | ⟨receiver, receiver', left, right, receivers⟩ <;> rw [left, right]
  · exact .fail _ closures.declaration.name.line
  · exact .pure receivers

end Alike

end Eval

end Lox
