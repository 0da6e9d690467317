/-
# When bound methods are equal

A method is bound to its receiver anew whenever it is read, and bound methods are equal if their
receivers are the same instance and their methods are the same.  A built-in method is the same
however often it is bound.  A declared one takes a stamp of its own at each binding, so that no two
reads of it are equal, not even from one instance (`equal_methods_iff`).  Only a value that has been
read once is equal to itself.
-/
import Mathlib
import Lox.Proofs.Eval.Change
import Lox.Proofs.Eval.Trace

namespace Lox

/-! ## 1. Reading a method -/

/-- The method that a property of an instance stands for, if it is not a field. -/
def Heap.methodOf? (heap : Heap) (id : InstanceId) (name : String) : Option Method :=
  match heap.field? id name with
  | some _ => none
  | none => (heap.class? id).bind (·.findMethod? name)

/-- Whether a method is one of a built-in class. -/
def Method.isBuiltin : Method → Bool
  | .builtin _ => true
  | .declared _ => false

/-- What binding a method to a receiver gives, between two states. -/
inductive Method.Bound (receiver : InstanceId) (s s' : State) : Method → BoundMethod → Prop where
  | builtin (method : BuiltinMethod) :
      Bound receiver s s' (.builtin method) ⟨receiver, .builtin method⟩
  /-- The stamp is the next one, and is used up. -/
  | declared {closure own : Closure} (same : own.declaration = closure.declaration)
      (stamp : own.stamp = s.stamp) (used : s.stamp < s'.stamp) :
      Bound receiver s s' (.declared closure) ⟨receiver, .declared own⟩

/-- As long as a property is not a field, it stands for the same method. -/
theorem Heap.Develops.methodOf?_unique {heap heap' : Heap} (h : heap.Develops heap')
    {id : InstanceId} {name : String} {method method' : Method}
    (found : heap.methodOf? id name = some method)
    (found' : heap'.methodOf? id name = some method') : method = method' := by
  unfold methodOf? at found found'
  split at found
  · cases found
  · split at found'
    · cases found'
    · obtain ⟨cls, hcls, hmethod⟩ := Option.bind_eq_some_iff.1 found
      rw [h.class? hcls, Option.bind_some, hmethod] at found'
      exact Option.some.inj found'

namespace Eval

theorem bindMethod_bound (receiver : InstanceId) (method : Method) (s : State) :
    ∃ bound s', bindMethod receiver method s = .ok bound s' ∧ s'.heap = s.heap ∧
      method.Bound receiver s s' bound := by
  cases method with
  | builtin method => exact ⟨_, _, rfl, rfl, .builtin method⟩
  | declared closure => exact ⟨_, _, rfl, rfl, .declared rfl rfl (Nat.lt_succ_self _)⟩

/-- A property that stands for a method is read without fail. -/
theorem getProperty_bound {s : State} {id : InstanceId} {name : String} {method : Method}
    (found : s.heap.methodOf? id name = some method) (line : Nat) :
    ∃ bound s', getProperty id name line s = .ok (.callable (.bound bound)) s' ∧
      s'.heap = s.heap ∧ method.Bound id s s' bound := by
  unfold Heap.methodOf? at found
  split at found
  · cases found
  · rename_i free
    obtain ⟨bound, s', hbound, same, binds⟩ := bindMethod_bound id method s
    refine ⟨bound, s', ?_, same, binds⟩
    rw [getProperty, look_bind]
    simp only [free, found]
    exact bind_of_ok hbound _

end Eval

/-! ## 2. Comparing bound methods -/

namespace BoundMethod

/-- A value is equal to itself, whatever it is bound to. -/
theorem same_self (bound : BoundMethod) : bound.same bound = true := by
  obtain ⟨receiver, method⟩ := bound
  cases method <;> simp [same, Method.same]

/-- Bindings of one method, one behind the other, are the same if the receivers are and the method
is built in. -/
theorem same_eq {o p : InstanceId} {f g : Method} {s s' t t' : State} {bound bound' : BoundMethod}
    (h : f.Bound o s s' bound) (later : s'.stamp ≤ t.stamp) (h' : g.Bound p t t' bound')
    (unique : o = p → f = g) : bound.same bound' = (decide (o = p) && f.isBuiltin) := by
  by_cases receivers : o = p
  · obtain rfl := unique receivers
    cases h with
    | builtin method =>
      cases h'
      simp [same, Method.same, Method.isBuiltin]
    | declared same stamp used =>
      cases h' with
      | declared same' stamp' used' =>
        have differ : s.stamp ≠ t.stamp := by omega
        simp [BoundMethod.same, Method.same, Method.isBuiltin, stamp, stamp', differ]
  · cases h <;> cases h' <;> simp [same, receivers]

end BoundMethod

/-- **Two reads of a method give equal values exactly if they are from the same instance and the
method is built in.**  Reading a property that stands for a method gives the method bound to the
instance, and that value is equal to itself.  If the second operand of a comparison reads the method
of the same name, from the same instance or another one, then the comparison gives a truth value: it
is true if the instances are the same and the method is built in, and false if they are not, or if
the method is a declared one, even though both reads have found it in the same declaration. -/
theorem equal_methods_iff {fuel line : Nat} {a b : Expr} {m m' : Name} {s s₁ : State}
    {o : InstanceId} {f : Method} (named : m.text = m'.text)
    (left : Eval.eval fuel a s = .ok (.inst o) s₁) (method : s₁.heap.methodOf? o m.text = some f) :
    ∃ bound s₂, Eval.eval (fuel + 1) (.get a m) s = .ok (.callable (.bound bound)) s₂ ∧
      bound.receiver = o ∧ (Value.callable (.bound bound)).equals (.callable (.bound bound)) = true ∧
      ∀ p s₃ g, Eval.eval fuel b s₂ = .ok (.inst p) s₃ →
        s₃.heap.methodOf? p m'.text = some g →
        (o = p → f = g) ∧
        ∃ s₄, Eval.eval (fuel + 2) (.binary .equal line (.get a m) (.get b m')) s =
          .ok (.boolean (decide (o = p) && f.isBuiltin)) s₄ := by
  obtain ⟨bound, s₂, read, heap, binds⟩ := Eval.getProperty_bound method m.line
  have first : Eval.eval (fuel + 1) (.get a m) s = .ok (.callable (.bound bound)) s₂ := by
    rw [Eval.eval, Eval.bind_of_ok left]
    exact read
  refine ⟨bound, s₂, first, by cases binds <;> rfl, bound.same_self, ?_⟩
  intro p s₃ g right method'
  obtain ⟨bound', s₄, read', -, binds'⟩ := Eval.getProperty_bound method' m'.line
  have second : Eval.eval (fuel + 1) (.get b m') s₂ = .ok (.callable (.bound bound')) s₄ := by
    rw [Eval.eval, Eval.bind_of_ok right]
    exact read'
  have behind : s₂.Develops s₃ := by
    have h := Task.develops_run fuel (.eval b) s₂
    simp only [Task.run] at h
    rwa [right] at h
  have unique : o = p → f = g := by
    rintro rfl
    rw [← heap, named] at method
    exact behind.heap.methodOf?_unique method method'
  refine ⟨unique, s₄, ?_⟩
  have compared := BoundMethod.same_eq binds behind.stamp binds' unique
  rw [Eval.eval, Eval.bind_of_ok first, Eval.bind_of_ok second, ← compared]
  rfl

namespace ReadTwice

/-- A method of a variable is compared with itself. -/
def comparison (name : Name) : Expr :=
  .binary .equal 1 (.get (.variable ⟨1, ⟨"o", 1⟩⟩) name) (.get (.variable ⟨2, ⟨"o", 1⟩⟩) name)

/-- The variable holds a list. -/
def lists : State := endState (Eval.run 10 [.varDecl ⟨"o", 1⟩ (some (.list 1 []))]
  (.initial ⟨[], true⟩ none 0))

/-- An instance of a declared class is bound to the variable. -/
def text : String := "class A \x7b m() \x7b\x7d \x7d var o = A(); print o.m == o.m;"

/-- What the text says. -/
def program : List Stmt :=
  [.classDecl ⟨"A", 1⟩ none [⟨⟨"m", 1⟩, [], []⟩],
    .varDecl ⟨"o", 1⟩ (some (.call (.variable ⟨0, ⟨"A", 1⟩⟩) [] 1)),
    .print 1 (comparison ⟨"m", 1⟩)]

/-- Whether a comparison of the same declared method of the same instance begins, and is false. -/
def differs : Moment → Bool
  | .begins (n + 2) (.eval (.binary .equal 1 (.get a m) (.get b m'))) s =>
    match Eval.eval n a s, Eval.eval n b s with
    | .ok (.inst o) _, .ok (.inst p) _ =>
      match s.heap.methodOf? o m.text,
          Eval.eval (n + 2) (.binary .equal 1 (.get a m) (.get b m')) s with
      | some (.declared _), .ok (.boolean false) _ => o == p && m.text == m'.text
      | _, _ => false
    | _, _ => false
  | _ => false

end ReadTwice

/-- The method of a list is equal to itself, however often it is read. -/
theorem built_in_method_equals_itself :
    ∃ s', Eval.eval 3 (ReadTwice.comparison ⟨"size", 1⟩) ReadTwice.lists = .ok (.boolean true) s' := by
  obtain ⟨bound, s₂, read, -, -, compared⟩ :=
    @equal_methods_iff 1 1 (.variable ⟨1, ⟨"o", 1⟩⟩) (.variable ⟨2, ⟨"o", 1⟩⟩)
      ⟨"size", 1⟩ ⟨"size", 1⟩ ReadTwice.lists ReadTwice.lists 0 (.builtin .listSize) rfl
      (by cbv) (by cbv)
  have known : Eval.eval 2 (.get (.variable ⟨1, ⟨"o", 1⟩⟩) ⟨"size", 1⟩) ReadTwice.lists =
      .ok (.callable (.bound ⟨0, .builtin .listSize⟩)) ReadTwice.lists := by cbv
  obtain ⟨-, rfl⟩ := EStateM.Result.ok.inj (known.symm.trans read)
  exact (compared 0 ReadTwice.lists (.builtin .listSize) (by cbv) (by cbv)).2

/-- The method of a declared class is not, though both operands read it from one instance. -/
theorem declared_method_differs_from_itself :
    ∃ n a b m m' s o closure s₁ s₂ s',
      (Past.after ⟨[], true⟩ none 0 [.run 20 ReadTwice.text]).moments
        (.begins (n + 2) (.eval (.binary .equal 1 (.get a m) (.get b m'))) s) ∧
      m.text = m'.text ∧ Eval.eval n a s = .ok (.inst o) s₁ ∧ Eval.eval n b s = .ok (.inst o) s₂ ∧
      s.heap.methodOf? o m.text = some (.declared closure) ∧
      Eval.eval (n + 2) (.binary .equal 1 (.get a m) (.get b m')) s = .ok (.boolean false) s' := by
  obtain ⟨m, begun, hp⟩ := Course.moment_of_trace (.new ⟨[], true⟩ none 0) 20 ReadTwice.text
    ReadTwice.program (by cbv) ReadTwice.differs (by decide +kernel)
  unfold ReadTwice.differs at hp
  split at hp
  · split at hp
    · split at hp
      · simp only [Bool.and_eq_true, beq_iff_eq] at hp
        obtain ⟨rfl, named⟩ := hp
        exact ⟨_, _, _, _, _, _, _, _, _, _, _, begun, named, ‹_›, ‹_›, ‹_›, ‹_›⟩
      · cases hp
    · cases hp
  · cases hp

end Lox
