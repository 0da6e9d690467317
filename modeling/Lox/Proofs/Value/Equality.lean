/-
# Equality of values is an equivalence

Numbers are compared as IEEE 754 has it: what is not a number is equal to nothing, not even to
itself, and the zeros of both signs are equal.  With this one exception `Value.equals` is reflexive
(`equals_self`); it is symmetric (`equals_symm`) and transitive (`equals_trans`), on all values
there could be.
-/
import Mathlib
import Lox.Value.Basic

namespace Lox

/-! ## 1. Numbers

Numbers are compared by their bits, apart from zeros and from what is not a number. -/

/-- Numbers are equal if they are the same one or are both zeros. -/
theorem beq_number_iff (x y : Float) :
    (x == y) = true ↔ x.toModel.unpack ≠ .notANumber ∧ y.toModel.unpack ≠ .notANumber ∧
      (x.toModel.unpack = y.toModel.unpack ∨
        x.toModel.unpack = .zero .positive ∧ y.toModel.unpack = .zero .negative ∨
        x.toModel.unpack = .zero .negative ∧ y.toModel.unpack = .zero .positive) :=
  Float.Model.UnpackedFloat.beq_iff_ne_notANumber_and_eq _ _

/-- Comparing numbers does not depend on the order. -/
theorem beq_number_symm {x y : Float} (h : (x == y) = true) : (y == x) = true := by
  rw [beq_number_iff] at h ⊢
  obtain ⟨hx, hy, same | ⟨pos, neg⟩ | ⟨neg, pos⟩⟩ := h
  · exact ⟨hy, hx, .inl same.symm⟩
  · exact ⟨hy, hx, .inr (.inr ⟨neg, pos⟩)⟩
  · exact ⟨hy, hx, .inr (.inl ⟨pos, neg⟩)⟩

/-- Equal numbers are the same, or zeros of two signs. -/
theorem beq_number_trans {x y z : Float} (h : (x == y) = true) (h' : (y == z) = true) :
    (x == z) = true := by
  rw [beq_number_iff] at h h' ⊢
  obtain ⟨hx, -, first⟩ := h
  obtain ⟨-, hz, second⟩ := h'
  refine ⟨hx, hz, ?_⟩
  rcases first with same | ⟨pos, neg⟩ | ⟨neg, pos⟩
  · rwa [same]
  all_goals
    rcases second with same | ⟨other, last⟩ | ⟨other, last⟩
    · simp only [← same, pos, neg, true_and, or_true, true_or]
    all_goals simp_all

/-- Only what is not a number differs from itself. -/
theorem beq_number_self (x : Float) : (x == x) = !x.isNaN := by
  rw [Bool.eq_iff_iff, beq_number_iff]
  change _ ↔ (!x.toModel.unpack.isNaN) = true
  rw [Bool.not_eq_true', Bool.eq_false_iff]
  have number := not_congr (Float.Model.UnpackedFloat.isNaN_iff (x := x.toModel.unpack))
  exact ⟨fun h => number.2 h.1, fun h => ⟨number.1 h, number.1 h, .inl rfl⟩⟩

/-! ## 2. Callables

Each callable has something that tells it apart: the name of what is built in, or the stamp of what
has been declared.  Callables are the same if it is, so this is an equivalence. -/

/-- What tells a callable apart. -/
inductive Callable.Mark
  | function (name : String)
  | closure (stamp : Nat)
  | builtinMethod (receiver : InstanceId) (name : String)
  | declaredMethod (receiver : InstanceId) (stamp : Nat)
  | builtinClass (kind : BuiltinClass)
  | baseClass (stamp : Nat)
  | derivedClass (stamp : Nat)

/-- The mark of a callable. -/
def Callable.mark : Callable → Mark
  | builtin function => .function function.name
  | closure c => .closure c.stamp
  | bound ⟨receiver, .builtin method⟩ => .builtinMethod receiver method.name
  | bound ⟨receiver, .declared c⟩ => .declaredMethod receiver c.stamp
  | «class» (.builtin kind) => .builtinClass kind
  | «class» (.base info) => .baseClass info.stamp
  | «class» (.derived info _) => .derivedClass info.stamp

/-- Bound methods are the same if their methods are, and their receivers. -/
theorem BoundMethod.same_iff {a b : BoundMethod} :
    a.same b = true ↔ a.method.same b.method = true ∧ a.receiver = b.receiver := by
  rw [same, Bool.and_eq_true, decide_eq_true_iff]

/-- **Callables are the same if nothing tells them apart.** -/
theorem Callable.same_iff {f g : Callable} : f.same g = true ↔ f.mark = g.mark := by
  rcases f with function | closure | ⟨receiver, method | method⟩ | (kind | info | ⟨info, superclass⟩)
    <;> rcases g with function' | closure' | ⟨receiver', method' | method'⟩ |
      (kind' | info' | ⟨info', superclass'⟩)
    <;> simp [same, BoundMethod.same_iff, Method.same, Class.same, mark, and_comm]

/-! ## 3. Values

Values of different kinds are never equal, and only numbers can be equal without being marked
alike. -/

namespace Value

/-- A value that is not a number, though its type is that of numbers. -/
def IsNaN : Value → Prop
  | number x => x.isNaN = true
  | _ => False

/-- Values are equal if they are equal numbers or callables that nothing tells apart; values of the
other types are equal if they are the same. -/
theorem equals_iff {a b : Value} : a.equals b = true ↔
    (∃ x y, a = number x ∧ b = number y ∧ (x == y) = true) ∨
    (∃ f g, a = callable f ∧ b = callable g ∧ f.mark = g.mark) ∨
    a = b ∧ (∀ x, a ≠ number x) ∧ ∀ f, a ≠ callable f := by
  cases a <;> cases b <;> simp [equals, Callable.same_iff]

/-- **Equality is reflexive** but for what is not a number. -/
theorem equals_self (value : Value) : value.equals value = true ↔ ¬ value.IsNaN := by
  rw [equals_iff]
  cases value with
  | number x => simp [IsNaN, beq_number_self]
  | _ => simp [IsNaN]

/-- **Equality is symmetric.** -/
theorem equals_symm {a b : Value} (h : a.equals b = true) : b.equals a = true := by
  rw [equals_iff] at h ⊢
  rcases h with ⟨x, y, rfl, rfl, same⟩ | ⟨f, g, rfl, rfl, same⟩ | ⟨rfl, other⟩
  · exact .inl ⟨y, x, rfl, rfl, beq_number_symm same⟩
  · exact .inr (.inl ⟨g, f, rfl, rfl, same.symm⟩)
  · exact .inr (.inr ⟨rfl, other⟩)

/-- **Equality is transitive.** -/
theorem equals_trans {a b c : Value} (h : a.equals b = true) (h' : b.equals c = true) :
    a.equals c = true := by
  rw [equals_iff] at h h' ⊢
  rcases h with ⟨x, y, rfl, rfl, same⟩ | ⟨f, g, rfl, rfl, same⟩ | ⟨rfl, -⟩
  · rcases h' with ⟨_, z, ⟨⟩, rfl, same'⟩ | ⟨_, _, ⟨⟩, -⟩ | ⟨-, other, -⟩
    · exact .inl ⟨x, z, rfl, rfl, beq_number_trans same same'⟩
    · exact absurd rfl (other y)
  · rcases h' with ⟨_, _, ⟨⟩, -⟩ | ⟨_, k, ⟨⟩, rfl, same'⟩ | ⟨-, -, other⟩
    · exact .inr (.inl ⟨f, k, rfl, rfl, same.trans same'⟩)
    · exact absurd rfl (other g)
  · exact h'

end Value

end Lox
