/-
# The command line

With the arguments `[-v]... [script]` the program runs a script, or else a prompt that runs one
line after another.  A script ends with status 0, 65, 70 or 74; errors at the prompt are reported
and the prompt goes on until the input ends.

Running is cut into turns: a script is one turn, and so is each line of a prompt.  A turn is a
function of the session.  If it needs input that has not arrived it says so, and is taken again
from the same session once there is more; what it printed up to then comes first again.
-/
import Lox.Session

namespace Lox.CommandLine

/-! ## 1. Arguments -/

/-- What the arguments ask for. -/
inductive Request where
  /-- To run a script, or a prompt if there is none. -/
  | run (script : Option String)
  | version
  | help
  | misuse (argument : String)
  deriving DecidableEq, Repr

/-- Reads a group of one-letter options: nothing if all of them only ask for more logging. -/
def shortOptions : List Char → Option Request
  | [] => none
  | 'v' :: rest => shortOptions rest
  | 'V' :: _ => some .version
  | 'h' :: _ => some .help
  | c :: _ => some (.misuse (String.ofList ['-', c]))

/-- Reads a long option, given without its leading hyphens. -/
def longOption (argument : String) (name : List Char) : Request :=
  match String.ofList (name.takeWhile (· ≠ '=')) with
  | "version" => .version
  | "help" => .help
  | _ => .misuse argument

/-- Reads the arguments behind `script`, the script named before them.  After `--` every argument
names a script; a hyphen alone does so too. -/
def readArguments (script : Option String) (optionsEnded : Bool) : List String → Request
  | [] => .run script
  | argument :: rest =>
    let positional :=
      if script.isSome then .misuse argument
      else readArguments (some argument) optionsEnded rest
    if optionsEnded then positional
    else
      match argument.toList with
      | ['-', '-'] => readArguments script true rest
      | '-' :: '-' :: name => longOption argument (name.dropWhile (· = '-'))
      | '-' :: c :: group =>
        match shortOptions (c :: group) with
        | none => readArguments script optionsEnded rest
        | some request => request
      | _ => positional

/-- Reads all arguments. -/
def request (arguments : List String) : Request := readArguments none false arguments

/-! ## 2. Texts -/

/-- The name and version of the program. -/
def versionText : String := "rlox 0.1.0\n"

/-- The shape of the arguments. -/
def usageText : String := "USAGE:\n    rlox [FLAGS] [script]\n"

/-- What is written when help is asked for. -/
def helpText : String :=
  versionText ++ "Tree-walking interpreter for the Lox language\n\n" ++ usageText ++
    "\nFLAGS:\n" ++
    "    -h, --help       Prints help information\n" ++
    "    -V, --version    Prints version information\n" ++
    "    -v               Logs more detail to stderr; repeat for more\n" ++
    "\nARGS:\n" ++
    "    <script>    Script to run; starts an interactive prompt when omitted\n"

/-- What is written about an argument that makes no sense. -/
def misuseText (argument : String) : String :=
  "error: Found argument '" ++ argument ++
    "' which wasn't expected, or isn't valid in this context\n\n" ++ usageText ++
    "\nFor more information try --help\n"

/-- The prompt before each line. -/
def promptText : String := "> "

/-! ## 3. Turns -/

/-- What follows a turn. -/
inductive Next where
  | turn
  | exit (code : Nat)
  /-- The same turn, when more input has arrived. -/
  | starved
  deriving DecidableEq, Repr

/-- What a turn writes, the session after it, and what follows. -/
structure Turn where
  stdout : String
  stderr : String
  session : Session
  next : Next

/-- What a failure adds to the error output. -/
def failureLine (failure : Failure) : String := failure.text ++ "\n"

/-- The status for a failure to evaluate that is no error of the program. -/
def stuckExit : Nat := 70

/-- The status for a script that cannot be read. -/
def unreadableExit : Nat := 74

/-- The status for arguments that make no sense. -/
def misuseExit : Nat := 64

/-- Runs a script. -/
def scriptTurn (source : String) (session : Session) : Turn :=
  let (outcome, session) := session.run source
  let (output, session) := session.takeOutput
  match outcome with
  | .finished => ⟨output, "", session, .exit 0⟩
  | .failed failure => ⟨output, failureLine failure, session, .exit failure.exitCode⟩
  | .starved => ⟨output, "", session, .starved⟩
  | .stuck => ⟨output, "", session, .exit stuckExit⟩

/-- Prompts for a line and runs it. -/
def promptTurn (session : Session) : Turn :=
  let (found, session) := session.readLine
  match found with
  | .ended => ⟨promptText, "", session, .exit 0⟩
  | .invalid =>
    ⟨promptText, "Could not read input: " ++ invalidTextReason ++ "\n", session, .exit 0⟩
  | .starved => ⟨promptText, "", session, .starved⟩
  | .line source =>
    let (outcome, session) := session.run source
    let (output, session) := session.takeOutput
    match outcome with
    | .finished => ⟨promptText ++ output, "", session, .turn⟩
    | .failed failure => ⟨promptText ++ output, failureLine failure, session, .turn⟩
    | .starved => ⟨promptText ++ output, "", session, .starved⟩
    | .stuck => ⟨promptText ++ output, "", session, .exit stuckExit⟩

/-! ## 4. Scripts and prompts as a whole -/

/-- What reading a file finds. -/
inductive FileRead where
  | contents (bytes : Text.Bytes)
  /-- The file cannot be read, for a reason. -/
  | failed (reason : String)

/-- There is no such file. -/
def FileRead.missing : FileRead := .failed "No such file or directory (os error 2)"

/-- The path names a directory. -/
def FileRead.directory : FileRead := .failed "Is a directory (os error 21)"

/-- The text of a script, or why there is none. -/
def FileRead.source : FileRead → Except String String
  | .failed reason => .error reason
  | .contents bytes =>
    match Text.decode? bytes with
    | some source => .ok source
    | none => .error invalidTextReason

/-- What is written about a script that cannot be read. -/
def unreadableText (path reason : String) : String :=
  "Could not read '" ++ path ++ "': " ++ reason ++ "\n"

/-- All that a run writes, and its exit status. -/
structure Report where
  exit : Nat
  stdout : String
  stderr : String

/-- Takes turns up to the last one, at most `turns` of them. -/
def takeTurns (turn : Session → Turn) : (turns : Nat) → Session → Report
  | 0, _ => ⟨stuckExit, "", ""⟩
  | turns + 1, session =>
    let taken := turn session
    match taken.next with
    | .exit code => ⟨code, taken.stdout, taken.stderr⟩
    | .starved => ⟨stuckExit, taken.stdout, taken.stderr⟩
    | .turn =>
      let later := takeTurns turn turns taken.session
      ⟨later.exit, taken.stdout ++ later.stdout, taken.stderr ++ later.stderr⟩

/-- Runs the command line on files and input that are known from the start.  Each line of the
prompt takes at least one byte of the input. -/
def report (arguments : List String) (files : String → FileRead) (stdin : Text.Bytes)
    (clock : Nat) : Report :=
  let session := Session.new ⟨stdin, true⟩ none clock
  match request arguments with
  | .version => ⟨0, versionText, ""⟩
  | .help => ⟨0, helpText, ""⟩
  | .misuse argument => ⟨misuseExit, "", misuseText argument⟩
  | .run none => takeTurns promptTurn (stdin.length + 1) session
  | .run (some path) =>
    match (files path).source with
    | .ok source => takeTurns (scriptTurn source) 1 session
    | .error reason => ⟨unreadableExit, "", unreadableText path reason⟩

end Lox.CommandLine
