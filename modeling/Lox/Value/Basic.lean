/-
# Values

The values of a running program.  Functions, classes and instances have an identity: a *stamp*
for what evaluating a declaration or binding a method makes, an `InstanceId` for an instance, whose
state is kept apart from its value.  Numbers and strings are compared by what they are, the others
by identity.
-/
import Lox.Bindings
import Lox.Builtin.Basic
import Lox.Decimal.Positional
import Lox.Scope
import Lox.Syntax.Basic

namespace Lox

/-- The identity of an instance. -/
abbrev InstanceId := Nat

/-- A declared function together with the scope it was declared in. -/
structure Closure where
  stamp : Nat
  declaration : FunDecl
  scope : ScopeId
  isInitializer : Bool

/-- What a class has under the name of a method. -/
inductive Method where
  | builtin (method : BuiltinMethod)
  | declared (closure : Closure)

/-- What a class declaration makes, the superclass apart. -/
structure ClassInfo where
  stamp : Nat
  name : String
  methods : Bindings Closure

/-- A class.  Only a declared class can have a superclass, so that a built-in class stands at the
end of every chain of superclasses that holds one. -/
inductive Class where
  | builtin (kind : BuiltinClass)
  | base (info : ClassInfo)
  | derived (info : ClassInfo) (superclass : Class)

/-- A method together with the instance that it was read from. -/
structure BoundMethod where
  receiver : InstanceId
  method : Method

/-- Whatever can be called. -/
inductive Callable where
  | builtin (function : BuiltinFunction)
  | closure (closure : Closure)
  | bound (method : BoundMethod)
  | class (cls : Class)

/-- The values of expressions. -/
inductive Value where
  | nil
  | boolean (value : Bool)
  | number (value : Float)
  | string (value : String)
  | callable (callable : Callable)
  | inst (id : InstanceId)

instance : Inhabited Value := ⟨.nil⟩

/-! ## 1. Functions and classes -/

/-- The name of a declared function. -/
def Closure.name (closure : Closure) : String := closure.declaration.name.text

/-- The number of its parameters. -/
def Closure.arity (closure : Closure) : Nat := closure.declaration.params.length

/-- The name of a method. -/
def Method.name : Method → String
  | .builtin method => method.name
  | .declared closure => closure.name

/-- The number of arguments that a method takes. -/
def Method.arity : Method → Nat
  | .builtin method => method.arity
  | .declared closure => closure.arity

namespace Class

/-- The name that a class was declared under. -/
def name : Class → String
  | builtin kind => kind.name
  | base info | derived info _ => info.name

/-- The nearest definition of a method along the chain of superclasses. -/
def findMethod? (name : String) : Class → Option Method
  | builtin kind => (kind.method? name).map .builtin
  | base info => (info.methods.get? name).map .declared
  | derived info superclass =>
    match info.methods.get? name with
    | some closure => some (.declared closure)
    | none => superclass.findMethod? name

/-- A call of a class takes the arguments of its initializer. -/
def arity (cls : Class) : Nat := ((cls.findMethod? initializerName).map Method.arity).getD 0

/-- Whether a class is itself built in, and not only derived from a class that is. -/
def isBuiltin : Class → Bool
  | builtin _ => true
  | _ => false

/-- Whether two classes are the same declaration, evaluated once. -/
def same : Class → Class → Bool
  | builtin a, builtin b => a = b
  | base a, base b => a.stamp = b.stamp
  | derived a _, derived b _ => a.stamp = b.stamp
  | _, _ => false

end Class

namespace Callable

/-- The number of arguments that a call must have. -/
def arity : Callable → Nat
  | builtin function => function.arity
  | closure c => c.arity
  | bound method => method.method.arity
  | «class» cls => cls.arity

/-- The text of a callable. -/
def text : Callable → String
  | builtin function => "<native fn " ++ function.name ++ ">"
  | closure c => "<fn " ++ c.name ++ ">"
  | bound method => "<fn " ++ method.method.name ++ ">"
  | «class» cls => cls.name

end Callable

/-! ## 2. Equality, truth and types -/

/-- Declared methods are the same if one binding made them; built-in ones if they have the same
name. -/
def Method.same : Method → Method → Bool
  | .declared a, .declared b => a.stamp = b.stamp
  | .builtin a, .builtin b => a.name = b.name
  | _, _ => false

/-- Bound methods are the same if their methods and their receivers are. -/
def BoundMethod.same (a b : BoundMethod) : Bool :=
  a.method.same b.method && a.receiver = b.receiver

/-- Whether two callables are the same. -/
def Callable.same : Callable → Callable → Bool
  | .builtin a, .builtin b => a.name = b.name
  | .closure a, .closure b => a.stamp = b.stamp
  | .bound a, .bound b => a.same b
  | .class a, .class b => a.same b
  | _, _ => false

namespace Value

/-- Equality of values; it never fails and never crosses types. -/
def equals : Value → Value → Bool
  | nil, nil => true
  | boolean a, boolean b => a = b
  | number a, number b => a == b
  | string a, string b => a = b
  | callable a, callable b => a.same b
  | inst a, inst b => a = b
  | _, _ => false

/-- Only `nil` and `false` are not true. -/
def isTruthy : Value → Bool
  | nil => false
  | boolean value => value
  | _ => true

end Value

/-- The types that values have. -/
inductive ValueType where
  | nil | boolean | number | string | callable | inst
  deriving DecidableEq, Repr

/-- The name of a type. -/
def ValueType.text : ValueType → String
  | .nil => "nil"
  | .boolean => "boolean"
  | .number => "number"
  | .string => "string"
  | .callable => "callable"
  | .inst => "instance"

/-- The type of a value. -/
def Value.type : Value → ValueType
  | .nil => .nil
  | .boolean _ => .boolean
  | .number _ => .number
  | .string _ => .string
  | .callable _ => .callable
  | .inst _ => .inst

/-- The value of a literal. -/
def Literal.toValue : Literal → Value
  | .nil => .nil
  | .boolean value => .boolean value
  | .number value => .number value
  | .string value => .string value

end Lox
