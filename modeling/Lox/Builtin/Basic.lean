/-
# What the interpreter provides

The built-in functions, the built-in classes and the methods of these classes, each with its name
and the number of its arguments.  The classes of iterators have no global name: only the `iterate`
method of a collection makes their instances.
-/
namespace Lox

/-- The built-in functions. -/
inductive BuiltinFunction where
  | clock | input | str | float | floor | ceil | sin | cos | exp | log
  deriving DecidableEq, Repr

namespace BuiltinFunction

/-- All built-in functions. -/
def all : List BuiltinFunction :=
  [clock, input, str, float, floor, ceil, sin, cos, exp, log]

/-- The global name of a built-in function. -/
def name : BuiltinFunction → String
  | clock => "clock" | input => "input" | str => "str" | float => "float"
  | floor => "floor" | ceil => "ceil" | sin => "sin" | cos => "cos" | exp => "exp"
  | log => "log"

/-- The number of its arguments. -/
def arity : BuiltinFunction → Nat
  | clock | input => 0
  | _ => 1

end BuiltinFunction

/-- The methods of the built-in classes.  The methods of an iterator are the same for all classes
of iterators. -/
inductive BuiltinMethod where
  | listInit | listAppend | listAt | listSet | listSize | listIterate
  | linkedInit | linkedAppend | linkedPrepend | linkedFirst | linkedSize | linkedIsEmpty
  | linkedIterate
  | rangeInit | rangeIterate
  | hasItems | get | move
  deriving DecidableEq, Repr

namespace BuiltinMethod

/-- The name under which a class holds a built-in method. -/
def name : BuiltinMethod → String
  | listInit | linkedInit | rangeInit => "init"
  | listAppend | linkedAppend => "append"
  | listAt => "at"
  | listSet => "set"
  | listSize | linkedSize => "size"
  | listIterate | linkedIterate | rangeIterate => "iterate"
  | linkedPrepend => "prepend"
  | linkedFirst => "first"
  | linkedIsEmpty => "isEmpty"
  | hasItems => "hasItems"
  | get => "get"
  | move => "move"

/-- The number of its arguments. -/
def arity : BuiltinMethod → Nat
  | listAppend | listAt | linkedAppend | linkedPrepend => 1
  | listSet => 2
  | rangeInit => 3
  | _ => 0

end BuiltinMethod

/-- The built-in classes. -/
inductive BuiltinClass where
  | list | listIterator | linkedList | linkedListIterator | range
  deriving DecidableEq, Repr

namespace BuiltinClass

/-- The classes that have a global name. -/
def globals : List BuiltinClass := [list, linkedList, range]

/-- The name of a built-in class. -/
def name : BuiltinClass → String
  | list => "List"
  | listIterator => "ListIterator"
  | linkedList => "LinkedList"
  | linkedListIterator => "LinkedListIterator"
  | range => "Range"

/-- The methods that a class declares. -/
def methods : BuiltinClass → List BuiltinMethod
  | list => [.listInit, .listAppend, .listAt, .listSet, .listSize, .listIterate]
  | linkedList =>
    [.linkedInit, .linkedAppend, .linkedPrepend, .linkedFirst, .linkedSize, .linkedIsEmpty,
      .linkedIterate]
  | range => [.rangeInit, .rangeIterate, .hasItems, .get, .move]
  | listIterator | linkedListIterator => [.hasItems, .get, .move]

/-- The method of a class with a given name. -/
def method? (kind : BuiltinClass) (name : String) : Option BuiltinMethod :=
  kind.methods.find? (·.name = name)

end BuiltinClass

end Lox
