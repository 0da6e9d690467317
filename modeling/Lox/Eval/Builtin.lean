/-
# Running built-in functions and methods

What the built-in functions compute, and what the methods of the built-in classes do to the
payload of the instance they were read from.  A method finds a payload of the wrong kind, or none,
only on an instance of a subclass that has not called the built-in `init`.

The number of arguments has been checked by the caller; `misuse` marks that it was not.
-/
import Lox.Decimal.Numeral
import Lox.Eval.State

namespace Lox.Eval

/-! ## 1. Functions -/

/-- The number that a value is. -/
def numberArgument (function : BuiltinFunction) (line : Nat) : Value → Eval Float
  | .number x => return x
  | value => failBuiltin (.notNumber function value.type) line

/-- The next line of the input without what ends it; `nil` at the end of the input. -/
def inputLine (line : Nat) : Eval Value := do
  match ← readLine with
  | .line text => return .string (Text.dropEnding text)
  | .ended => return .nil
  | .invalid => failBuiltin .invalidInput line
  | .starved => throw .starved

/-- The text of a number or string. -/
def toText (line : Nat) : Value → Eval Value
  | .number x => return .string (Decimal.numberText x)
  | .string s => return .string s
  | value => failBuiltin (.notText .str value.type) line

/-- The number that a string is a numeral of, blanks around it apart. -/
def toNumber (line : Nat) : Value → Eval Value
  | .number x => return .number x
  | .string s =>
    match Decimal.readNumeral? (Text.trim s) with
    | some x => return .number x
    | none => failBuiltin (.notNumeral s) line
  | value => failBuiltin (.notText .float value.type) line

/-- Calls a built-in function. -/
def callFunction (function : BuiltinFunction) (arguments : List Value) (line : Nat) :
    Eval Value := do
  match function, arguments with
  | .clock, [] => return .number (Float.ofNat (← readClock) / 1000000)
  | .input, [] => inputLine line
  | .str, [value] => toText line value
  | .float, [value] => toNumber line value
  | .floor, [value] => return .number (← numberArgument .floor line value).floor
  | .ceil, [value] => return .number (← numberArgument .ceil line value).ceil
  | .sin, [value] => return .number (← numberArgument .sin line value).sin
  | .cos, [value] => return .number (← numberArgument .cos line value).cos
  | .exp, [value] => return .number (← numberArgument .exp line value).exp
  | .log, [value] =>
    let x ← numberArgument .log line value
    if x ≤ 0 then failBuiltin (.notPositive .log) line else return .number x.log
  | _, _ => throw .misuse

/-! ## 2. Payloads -/

/-- The elements of a list. -/
def listStorage (self : InstanceId) (line : Nat) : Eval StorageId := do
  match (← get).heap.payload? self with
  | some (.list storage) => return storage
  | _ => failBuiltin .uninitialized line

/-- The chain of a linked list. -/
def linkedChain (self : InstanceId) (line : Nat) : Eval Chain := do
  match (← get).heap.payload? self with
  | some (.linkedList chain) => return chain
  | _ => failBuiltin .uninitialized line

/-- The iterator that an instance holds. -/
def heldIterator (self : InstanceId) (line : Nat) : Eval Iterator := do
  match (← get).heap.iterator? self with
  | some iterator => return iterator
  | none => failBuiltin .uninitialized line

/-- The place in a storage that a value denotes: a natural number below the number of elements. -/
def index (storage : StorageId) (line : Nat) : Value → Eval Nat
  | .number x => do
    match (Decimal.Binary.ofFloat x).toNat? with
    | some i =>
      if i < (← get).heap.storageSize storage then return i
      else failBuiltin .indexOutOfRange line
    | none => failBuiltin .indexOutOfRange line
  | value => failBuiltin (.indexNotNumber value.type) line

/-- A bound of a range. -/
def rangeBound (line : Nat) : Value → Eval Float
  | .number x => return x
  | value => failBuiltin (.boundNotNumber value.type) line

/-- Changes the chain of a linked list. -/
def modifyChain (self : InstanceId) (line : Nat)
    (change : Nodes Value → Chain → Chain × Nodes Value) : Eval Unit := do
  let chain ← linkedChain self line
  modifyHeap fun heap =>
    let (chain, nodes) := change heap.nodes chain
    { heap with nodes := nodes }.setPayload self (.linkedList chain)

/-! ## 3. Iterators -/

/-- Whether the iterator that an instance holds has items. -/
def iteratorHasItems (self : InstanceId) (line : Nat) : Eval Bool := do
  let iterator ← heldIterator self line
  return (← get).heap.hasItems iterator

/-- The current element of the iterator that an instance holds. -/
def iteratorCurrent (self : InstanceId) (line : Nat) : Eval Value := do
  let iterator ← heldIterator self line
  match (← get).heap.current? iterator with
  | some value => return value
  | none => failBuiltin .exhausted line

/-- Steps the iterator that an instance holds. -/
def iteratorAdvance (self : InstanceId) (line : Nat) : Eval Unit := do
  let iterator ← heldIterator self line
  modifyHeap fun heap => heap.setPayload self (.iterator (heap.advance iterator))

/-- Makes an instance of a class of iterators. -/
def newIterator (kind : BuiltinClass) (iterator : Iterator) : Eval Value :=
  return .inst (← newInstance (.builtin kind) (some (.iterator iterator)))

/-! ## 4. Methods -/

/-- Calls a method of a built-in class on an instance. -/
def callMethod (method : BuiltinMethod) (self : InstanceId) (arguments : List Value)
    (line : Nat) : Eval Value := do
  match method, arguments with
  | .listInit, [] =>
    let storage ← newStorage #[]
    modifyHeap (·.setPayload self (.list storage))
    return .inst self
  | .listAppend, [value] =>
    let storage ← listStorage self line
    modifyHeap (·.pushItem storage value)
    return .nil
  | .listAt, [place] =>
    let storage ← listStorage self line
    let i ← index storage line place
    match (← get).heap.item? storage i with
    | some value => return value
    | none => failBuiltin .indexOutOfRange line
  | .listSet, [place, value] =>
    let storage ← listStorage self line
    let i ← index storage line place
    modifyHeap (·.setItem storage i value)
    return value
  | .listSize, [] =>
    let storage ← listStorage self line
    return .number (Float.ofNat ((← get).heap.storageSize storage))
  | .listIterate, [] => newIterator .listIterator (.list (← listStorage self line) 0)
  | .linkedInit, [] =>
    modifyHeap (·.setPayload self (.linkedList .empty))
    return .inst self
  | .linkedAppend, [value] =>
    modifyChain self line fun nodes chain => nodes.pushBack chain value
    return .nil
  | .linkedPrepend, [value] =>
    modifyChain self line fun nodes chain => nodes.push chain value
    return .nil
  | .linkedFirst, [] =>
    let chain ← linkedChain self line
    return ((← get).heap.nodes.first? chain).getD .nil
  | .linkedSize, [] =>
    let chain ← linkedChain self line
    return .number (Float.ofNat ((← get).heap.nodes.length chain))
  | .linkedIsEmpty, [] => return .boolean (← linkedChain self line).isEmpty
  | .linkedIterate, [] =>
    newIterator .linkedListIterator (.linkedList (← linkedChain self line))
  | .rangeInit, [first, last, step] =>
    let first ← rangeBound line first
    let last ← rangeBound line last
    let step ← rangeBound line step
    if step == 0 then failBuiltin .zeroStep line
    else
      modifyHeap (·.setPayload self (.iterator (.range first last step)))
      return .inst self
  | .rangeIterate, [] => return .inst self
  | .hasItems, [] => return .boolean (← iteratorHasItems self line)
  | .get, [] => iteratorCurrent self line
  | .move, [] =>
    iteratorAdvance self line
    return .nil
  | _, _ => throw .misuse

end Lox.Eval
