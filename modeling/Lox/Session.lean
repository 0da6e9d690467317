/-
# Sessions

A session runs program texts one after another.  Globals, functions and the resolution of earlier
texts stay, and no two nodes of the texts of a session have the same id.  A text with scan, syntax
or static errors is not run; a run-time error ends its text and leaves the session as it was at
that point.
-/
import Lox.Eval.Basic
import Lox.Resolution.Resolve
import Lox.Syntax.Parse
import Lox.Token.Scan

namespace Lox

/-- What stops a text. -/
inductive Failure where
  | scanErrors (errors : List ScanError)
  | syntaxErrors (errors : List SyntaxError)
  | staticErrors (errors : List ResolutionError)
  | runtimeError (error : RuntimeError)

/-- The report of a failure: one error per line. -/
def Failure.text : Failure → String
  | .scanErrors errors => "\n".intercalate (errors.map ScanError.text)
  | .syntaxErrors errors => "\n".intercalate (errors.map SyntaxError.text)
  | .staticErrors errors => "\n".intercalate (errors.map ResolutionError.text)
  | .runtimeError error => error.text

/-- The exit status of a script that fails. -/
def Failure.exitCode : Failure → Nat
  | .scanErrors _ | .syntaxErrors _ | .staticErrors _ => 65
  | .runtimeError _ => 70

/-- How running a text ends. -/
inductive Outcome where
  | finished
  | failed (failure : Failure)
  /-- A line of input is needed that has not arrived. -/
  | starved
  /-- Evaluation ran out of fuel, or a built-in was misused. -/
  | stuck

/-- A session: the state of evaluation, and the first free id. -/
structure Session where
  state : State
  nextId : Id

/-- The values of the global names before any text has run. -/
def builtinGlobals : List (String × Value) :=
  BuiltinFunction.all.map (fun f => (f.name, .callable (.builtin f))) ++
    BuiltinClass.globals.map fun kind => (kind.name, .callable (.class (.builtin kind)))

/-- The state before any text has run: one scope, that of the globals. -/
def State.initial (input : Input) (room : Option Nat) (clock : Nat) : State where
  scopes := ⟨#[⟨.ofList builtinGlobals, none⟩]⟩
  scope := globalScope
  depth := 0
  heap := .empty
  stamp := 0
  resolution := .empty
  output := ⟨"", room⟩
  input := input
  clock := clock

namespace Session

/-- A session in which no text has run. -/
def new (input : Input) (room : Option Nat) (clock : Nat) : Session :=
  ⟨.initial input room clock, 0⟩

/-- Runs a program in the session after adding its resolution. -/
def evaluate (fuel : Nat) (session : Session) (program : List Stmt) (resolution : Resolution) :
    Outcome × Session :=
  let state :=
    { session.state with resolution := session.state.resolution.absorb resolution }
  match Eval.run fuel program state with
  | .ok () state => (.finished, { session with state := state })
  | .error (.error error) state => (.failed (.runtimeError error), { session with state := state })
  | .error .starved state => (.starved, { session with state := state })
  | .error .outOfFuel state => (.stuck, { session with state := state })
  | .error .misuse state => (.stuck, { session with state := state })

/-- Runs a program text with a given amount of fuel for each top-level statement.  Ids are used up
by every text that could be scanned. -/
def runWith (fuel : Nat) (session : Session) (source : String) : Outcome × Session :=
  match scan source with
  | .error errors => (.failed (.scanErrors errors), session)
  | .ok stream =>
    let parsed := parse stream session.nextId
    let session := { session with nextId := parsed.nextId }
    match parsed.result with
    | .error (.errors errors) => (.failed (.syntaxErrors errors), session)
    | .error .outOfFuel => (.stuck, session)
    | .ok program =>
      match resolve program with
      | .error errors => (.failed (.staticErrors errors), session)
      | .ok resolution => evaluate fuel session program resolution

/-- More calls deep than any run can get. -/
def ampleFuel : Nat := Nat.pow 2 62

/-- Runs a program text. -/
def run (session : Session) (source : String) : Outcome × Session :=
  runWith ampleFuel session source

/-- Takes out what has been printed. -/
def takeOutput (session : Session) : String × Session :=
  let state := session.state
  (state.output.text,
    { session with state := { state with output := { state.output with text := "" } } })

/-- Takes a line of the input that the session's programs read from too. -/
def readLine (session : Session) : LineRead × Session :=
  let (found, input) := session.state.input.readLine
  (found, { session with state := { session.state with input := input } })

/-- Adds bytes that have arrived; none means that the input has ended. -/
def feed (session : Session) (bytes : Text.Bytes) : Session :=
  let input := session.state.input
  let input : Input := ⟨input.pending ++ bytes, bytes.isEmpty⟩
  { session with state := { session.state with input := input } }

end Session

end Lox
