/-
# Run-time errors

What can go wrong while a program runs, and the wording of it.  Causes that only a built-in
function or method can meet are kept apart, in `BuiltinCause`.
-/
import Lox.Value.Basic

namespace Lox

/-- Why a built-in function or method fails. -/
inductive BuiltinCause where
  | notNumber (function : BuiltinFunction) (got : ValueType)
  | notText (function : BuiltinFunction) (got : ValueType)
  | notNumeral (text : String)
  | notPositive (function : BuiltinFunction)
  | invalidInput
  | indexNotNumber (got : ValueType)
  | indexOutOfRange
  | boundNotNumber (got : ValueType)
  | zeroStep
  | exhausted
  | uninitialized
  deriving DecidableEq, Repr

/-- The reason why input that is not UTF-8 cannot be read. -/
def invalidTextReason : String := "stream did not contain valid UTF-8"

/-- The message for a cause. -/
def BuiltinCause.message : BuiltinCause → String
  | .notNumber function got =>
    "Built-in function '" ++ function.name ++ "' expects a number, got " ++ got.text ++ "."
  | .notText function got =>
    "Built-in function '" ++ function.name ++ "' expects a string or number, got " ++ got.text
      ++ "."
  | .notNumeral text => "Could not convert '" ++ text ++ "' to a number."
  | .notPositive function =>
    "Built-in function '" ++ function.name ++ "' expects a positive number."
  | .invalidInput => "Could not read input: " ++ invalidTextReason ++ "."
  | .indexNotNumber got => "List index must be a number, got " ++ got.text ++ "."
  | .indexOutOfRange => "List index out of range."
  | .boundNotNumber got => "Range bounds must be numbers, got " ++ got.text ++ "."
  | .zeroStep => "Range step must not be zero."
  | .exhausted => "Iterator has no more items."
  | .uninitialized => "Native object is not initialized; call super.init() first."

/-- Why evaluation fails. -/
inductive RuntimeCause where
  | operandNotNumber
  | operandsNotNumbers
  | operandsNotAddable
  | divisionByZero
  | notCallable
  | arity (expected got : Nat)
  | undefinedVariable (name : String)
  | undefinedProperty (name : String)
  | noProperties
  | noFields
  | superclassNotClass
  | notIterable
  | stackOverflow
  | outputClosed
  | builtin (cause : BuiltinCause)
  deriving DecidableEq, Repr

/-- The message for a cause. -/
def RuntimeCause.message : RuntimeCause → String
  | .operandNotNumber => "Operand must be a number."
  | .operandsNotNumbers => "Operands must be numbers."
  | .operandsNotAddable => "Operands must be two numbers or two strings."
  | .divisionByZero => "Division by zero."
  | .notCallable => "Can only call functions and classes."
  | .arity expected got =>
    "Expected " ++ toString expected ++ " arguments but got " ++ toString got ++ "."
  | .undefinedVariable name => Lox.undefinedVariable name
  | .undefinedProperty name => "Undefined property '" ++ name ++ "'."
  | .noProperties => "Only instances have properties."
  | .noFields => "Only instances have fields."
  | .superclassNotClass => "Superclass must be a class."
  | .notIterable => "Only instances can be iterated."
  | .stackOverflow => "Stack overflow."
  | .outputClosed => "Could not write output: closed."
  | .builtin cause => cause.message

/-- A run-time error and its line. -/
structure RuntimeError where
  cause : RuntimeCause
  line : Nat
  deriving DecidableEq, Repr

/-- The report of a run-time error. -/
def RuntimeError.text (error : RuntimeError) : String :=
  error.cause.message ++ "\n[line " ++ toString error.line ++ "]"

end Lox
