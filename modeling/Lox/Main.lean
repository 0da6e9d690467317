/-
# The program

Reads the arguments, the script and the input, takes turns, and writes what they write.  Input is
read line by line, and only when a turn needs it; a turn that has to be taken again does not write
again what it has already written.
-/
import Lox.CommandLine

namespace Lox.Main

open CommandLine

/-- Reads a file as it is. -/
def readFile (path : String) : IO FileRead := do
  try
    let bytes ← IO.FS.readBinFile path
    return .contents bytes.toList
  catch
    | .noFileOrDirectory .. => return .missing
    | .inappropriateType _ 21 _ => return .directory
    | other => return .failed (toString other)

/-- Reads the bytes of the next line of the input; none at its end. -/
partial def readLineBytes (read : Text.Bytes) : IO Text.Bytes := do
  match (← (← IO.getStdin).read 1).toList with
  | [] => return read.reverse
  | bytes =>
    if bytes.contains Text.newlineByte then return (bytes.reverse ++ read).reverse
    else readLineBytes (bytes.reverse ++ read)

/-- Writes a text and makes it visible. -/
def write (stream : IO IO.FS.Stream) (text : String) : IO Unit := do
  (← stream).putStr text
  (← stream).flush

/-- Takes turns up to the last one.  Of the coming turn, `shown` characters have been written. -/
partial def takeTurns (turn : Session → Turn) (shown : Nat) (session : Session) : IO UInt32 := do
  let taken := turn session
  write IO.getStdout (String.ofList (taken.stdout.toList.drop shown))
  match taken.next with
  | .starved => takeTurns turn taken.stdout.length (session.feed (← readLineBytes []))
  | .turn =>
    write IO.getStderr taken.stderr
    takeTurns turn 0 taken.session
  | .exit code =>
    write IO.getStderr taken.stderr
    return code.toUInt32

/-- A session whose input has not arrived, with the clock at the present. -/
def newSession : IO Session := do
  return .new ⟨[], false⟩ none ((← IO.monoNanosNow) / 1000)

end Lox.Main

open Lox Lox.Main Lox.CommandLine in
/-- Runs a script or a prompt. -/
def main (arguments : List String) : IO UInt32 := do
  match request arguments with
  | .version =>
    write IO.getStdout versionText
    return 0
  | .help =>
    write IO.getStdout helpText
    return 0
  | .misuse argument =>
    write IO.getStderr (misuseText argument)
    return misuseExit.toUInt32
  | .run none => Main.takeTurns promptTurn 0 (← newSession)
  | .run (some path) =>
    match (← readFile path).source with
    | .ok source => Main.takeTurns (scriptTurn source) 0 (← newSession)
    | .error reason =>
      write IO.getStderr (unreadableText path reason)
      return unreadableExit.toUInt32
