/-
# The state of a running program

Everything that evaluation reads or changes: the scopes and which of them is current, the number
of calls in progress, the heap, the resolution of all programs of the session, and the console
(output, input and clock).

An evaluation ends with a value or with an `Interrupt`; in both cases there is a state after it.
`Eval.within` and `Eval.nested` put the current scope and the number of calls back however the
evaluation inside them ends.
-/
import Lox.Eval.Error
import Lox.Resolution.Basic
import Lox.Text.Line
import Lox.Value.Text

namespace Lox

/-! ## 1. Console -/

/-- Printed text, and how many more newlines the writer takes, if that is limited. -/
structure Output where
  text : String
  room : Option Nat

/-- The number of newlines that printing a text takes: those in it, and the one that ends it. -/
def newlinesToPrint (text : String) : Nat := text.toList.count '\n' + 1

/-- Whether the writer has room for all of a text and a newline.  A print that does not wholly fit
is refused as a whole, so that a text of several lines may be refused while there is still room for
one line.  The writer that refuses the first print after a number of newlines is the one whose room
is that of the prints before. -/
def Output.takes (output : Output) (text : String) : Bool :=
  match output.room with
  | none => true
  | some room => newlinesToPrint text ≤ room

/-- Prints a text and a newline. -/
def Output.print (output : Output) (text : String) : Output :=
  ⟨output.text ++ text ++ "\n", output.room.map (· - newlinesToPrint text)⟩

/-- The output once the writer has refused a print: it takes nothing more. -/
def Output.close (output : Output) : Output := { output with room := some 0 }

/-- Input that has not been read yet, and whether more may still arrive behind it. -/
structure Input where
  pending : Text.Bytes
  complete : Bool

/-- What reading a line finds. -/
inductive LineRead where
  /-- A line, with what ended it. -/
  | line (text : String)
  /-- A line that is not UTF-8. -/
  | invalid
  /-- The input has ended. -/
  | ended
  /-- The line has not fully arrived. -/
  | starved
  deriving DecidableEq, Repr

/-- Takes the next line of the input.  Only a line that has arrived is taken. -/
def Input.readLine (input : Input) : LineRead × Input :=
  let (line, rest) := Text.takeLine input.pending
  if !input.complete && line.getLast? != some Text.newlineByte then (.starved, input)
  else if line.isEmpty then (.ended, input)
  else
    match Text.decode? line with
    | some text => (.line text, { input with pending := rest })
    | none => (.invalid, { input with pending := rest })

/-! ## 2. State and interrupts -/

/-- The state of a session between and during evaluations. -/
structure State where
  scopes : Scopes Value
  /-- The current scope. -/
  scope : ScopeId
  /-- The number of calls in progress. -/
  depth : Nat
  heap : Heap
  /-- The next stamp. -/
  stamp : Nat
  resolution : Resolution
  output : Output
  input : Input
  /-- Microseconds; every look at the clock takes one. -/
  clock : Nat

/-- The scope of the globals, which is made first. -/
def globalScope : ScopeId := 0

/-- The most calls that can be in progress at a time. -/
def maxDepth : Nat := 1024

/-- Why an evaluation ends without a value. -/
inductive Interrupt where
  | error (error : RuntimeError)
  /-- A line of input is needed that has not arrived. -/
  | starved
  | outOfFuel
  /-- A built-in function or method was given arguments that do not match its arity. -/
  | misuse
  deriving DecidableEq, Repr

/-- An evaluation. -/
abbrev Eval := EStateM Interrupt State

namespace Eval

variable {α : Type}

/-- Ends with a run-time error. -/
def fail (cause : RuntimeCause) (line : Nat) : Eval α := throw (.error ⟨cause, line⟩)

/-- Ends with an error of a built-in function or method. -/
def failBuiltin (cause : BuiltinCause) (line : Nat) : Eval α := fail (.builtin cause) line

/-- Ends for want of fuel. -/
def outOfFuel : Eval α := throw .outOfFuel

/-! ## 3. Scopes and calls -/

/-- Runs an evaluation in another scope. -/
@[inline] def within (scope : ScopeId) (action : Eval α) : Eval α := fun state =>
  let outer := state.scope
  match action { state with scope := scope } with
  | .ok value state => .ok value { state with scope := outer }
  | .error interrupt state => .error interrupt { state with scope := outer }

/-- Runs a call, if no more than the allowed number would be in progress. -/
@[inline] def nested (line : Nat) (action : Eval α) : Eval α := fun state =>
  if maxDepth ≤ state.depth then .error (.error ⟨.stackOverflow, line⟩) state
  else
    match action { state with depth := state.depth + 1 } with
    | .ok value state => .ok value { state with depth := state.depth - 1 }
    | .error interrupt state => .error interrupt { state with depth := state.depth - 1 }

/-- Makes a scope inside another one. -/
def newScope (enclosing : ScopeId) : Eval ScopeId := modifyGet fun state =>
  let (id, scopes) := state.scopes.add (some enclosing)
  (id, { state with scopes := scopes })

/-- Binds a name in a scope. -/
def defineIn (scope : ScopeId) (name : String) (value : Value) : Eval Unit :=
  modify fun state => { state with scopes := state.scopes.define scope name value }

/-- Binds a name in the current scope. -/
def define (name : String) (value : Value) : Eval Unit := do
  defineIn (← get).scope name value

/-- Makes a scope inside the current one. -/
def childScope : Eval ScopeId := do newScope (← get).scope

/-- The value of a name at a node, where the resolution finds it. -/
def readVariable (id : Id) (name : String) (line : Nat) : Eval Value := do
  let state ← get
  let found := match state.resolution.binding id with
    | .local hops => state.scopes.getAt? state.scope hops name
    | .global => state.scopes.get? globalScope name
  match found with
  | some value => return value
  | none => fail (.undefinedVariable name) line

/-- Gives the variable at a node another value. -/
def writeVariable (target : Variable) (value : Value) : Eval Unit := fun state =>
  let scope? := match state.resolution.binding target.id with
    | .local hops => state.scopes.ancestor? state.scope hops
    | .global => some globalScope
  match scope?.filter (state.scopes.binds · target.name.text) with
  | some scope =>
    .ok () { state with scopes := state.scopes.define scope target.name.text value }
  | none => .error (.error ⟨.undefinedVariable target.name.text, target.name.line⟩) state

/-- A stamp that nothing else has. -/
def freshStamp : Eval Nat :=
  modifyGet fun state => (state.stamp, { state with stamp := state.stamp + 1 })

/-! ## 4. Instances -/

/-- Makes an instance. -/
def newInstance (cls : Class) (payload : Option Payload) : Eval InstanceId :=
  modifyGet fun state =>
    let (id, heap) := state.heap.add cls payload
    (id, { state with heap := heap })

/-- Changes the heap. -/
@[inline] def modifyHeap (change : Heap → Heap) : Eval Unit :=
  modify fun state => { state with heap := change state.heap }

/-- Stores the elements of a new list. -/
def newStorage (items : Array Value) : Eval StorageId := modifyGet fun state =>
  let (id, heap) := state.heap.addStorage items
  (id, { state with heap := heap })

/-- Makes a built-in list of the given elements. -/
def newList (items : List Value) : Eval Value := do
  let storage ← newStorage items.toArray
  return .inst (← newInstance (.builtin .list) (some (.list storage)))

/-- Binds a method to an instance.  A declared one gets a scope of its own that binds `this`
alone. -/
def bindMethod (receiver : InstanceId) : Method → Eval BoundMethod
  | .builtin method => return ⟨receiver, .builtin method⟩
  | .declared closure => do
    let scope ← newScope closure.scope
    defineIn scope "this" (.inst receiver)
    return ⟨receiver, .declared { closure with stamp := ← freshStamp, scope := scope }⟩

/-- A property of an instance: the field, or else the method of its class bound to it. -/
def getProperty (id : InstanceId) (name : String) (line : Nat) : Eval Value := do
  let heap := (← get).heap
  match heap.field? id name with
  | some value => return value
  | none =>
    match (heap.class? id).bind (·.findMethod? name) with
    | some method => return .callable (.bound (← bindMethod id method))
    | none => fail (.undefinedProperty name) line

/-! ## 5. Console -/

/-- Prints the text of a value.  A writer without room for all of it takes none of it, and
nothing later. -/
def printValue (value : Value) (line : Nat) : Eval Unit := fun state =>
  let text := state.heap.text value
  if state.output.takes text then .ok () { state with output := state.output.print text }
  else .error (.error ⟨.outputClosed, line⟩) { state with output := state.output.close }

/-- Takes the next line of the input. -/
def readLine : Eval LineRead := modifyGet fun state =>
  let (found, input) := state.input.readLine
  (found, { state with input := input })

/-- Looks at the clock. -/
def readClock : Eval Nat :=
  modifyGet fun state => (state.clock, { state with clock := state.clock + 1 })

end Eval

end Lox
