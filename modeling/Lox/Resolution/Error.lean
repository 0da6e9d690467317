/-
# Static errors

What a program can do wrong with names, `this`, `super` and `return` that shows before it runs.
-/
import Lox.Syntax.Basic

namespace Lox

/-- What is wrong at a name or keyword. -/
inductive ResolutionCause where
  | redeclared
  | readInInitializer
  | selfInheritance
  | thisOutsideClass
  | superOutsideClass
  | superWithoutSuperclass
  | returnAtTopLevel
  | returnFromInitializer
  deriving DecidableEq, Repr

/-- The message for a cause. -/
def ResolutionCause.message : ResolutionCause → String
  | .redeclared => "Variable with this name already declared in this scope."
  | .readInInitializer => "Cannot read local variable in its own initializer."
  | .selfInheritance => "A class cannot inherit from itself."
  | .thisOutsideClass => "Cannot use 'this' outside of a class."
  | .superOutsideClass => "Cannot use 'super' outside of a class."
  | .superWithoutSuperclass => "Cannot use 'super' in a class with no superclass."
  | .returnAtTopLevel => "Cannot return from top-level code."
  | .returnFromInitializer => "Cannot return a value from an initializer."

/-- A static error, with the name or keyword that it stands at. -/
structure ResolutionError where
  place : Name
  cause : ResolutionCause
  deriving DecidableEq, Repr

/-- The report of a static error. -/
def ResolutionError.text (error : ResolutionError) : String :=
  "[line " ++ toString error.place.line ++ "] Error at '" ++ error.place.text ++ "': "
    ++ error.cause.message

end Lox
