/-
# The prompt and its programs share one input

At the prompt a session takes turns (`Prompt.sessions`).  Each turn reads a line and runs it as a
program text, and the program can read lines from the same input.  `Prompt.askings` lists what a
turn reads, in order: the line of the prompt first, and then what the calls of `input` read, as far
as the program has come.

The input behind a turn is what these askings have left (`Prompt.serves_turn`), whether the text is
refused, fails half-way or runs to its end.  So over the whole session each asking takes up where
the one before it has left off, and if the input is the bytes of a text, the askings are served with
the lines of the text, one by one (`Input.Serves.behind`).  As each turn takes a line, there are no
more turns than lines, but for the last one, which finds the end.

Main statement: `prompt_and_programs_share_input`.
-/
import Mathlib
import Lox.CommandLine
import Lox.Proofs.Eval.Asking
import Lox.Proofs.Session.Arity
import Lox.Proofs.Session.Invisible
import Lox.Proofs.Session.Truncation
import Lox.Proofs.Text.Line

namespace Lox

open CommandLine

/-! ## 1. Programs and texts -/

/-- A program takes from the input what its tasks ask for. -/
theorem Eval.asks_run (fuel : Nat) (program : List Stmt) (s : State) :
    Asks s.input ((Moment.trace fuel program s).filterMap Moment.asking?)
      (Eval.run fuel program s) := by
  rw [← Script.trace_ofProgram, ← Script.run_ofProgram]
  exact Script.asks (Task.asks fuel) (Script.acts_ofProgram program) s

namespace Session

/-- The askings of the program of a text, if the text is accepted. -/
def askings (session : Session) (source : String) : List Asking :=
  match session.accepted? source with
  | some (program, resolution) =>
    (Moment.trace ampleFuel program (session.ready resolution)).filterMap Moment.asking?
  | none => []

variable {session : Session} {source : String}

/-- A text that is refused asks for nothing. -/
theorem askings_of_static (refused : (session.run source).1.isStatic = true) :
    session.askings source = [] := by
  rw [run, isStatic_runWith, Option.isNone_iff_eq_none] at refused
  rw [askings, refused]

/-- Running a text takes from the input what its program asks for. -/
theorem serves_run (session : Session) (source : String) :
    session.state.input.Serves (session.askings source) (session.run source).2.state.input := by
  cases accepted : session.accepted? source with
  | none =>
    rw [askings, accepted, run, runWith_of_none ampleFuel accepted]
    exact .done _
  | some found =>
    obtain ⟨program, resolution⟩ := found
    rw [askings, accepted, run, runWith_eq ampleFuel accepted]
    exact (Eval.asks_run ampleFuel program (session.ready resolution)).serves

/-- A text that waits for input or gets stuck has been accepted, and its program ends so. -/
theorem exists_of_not_static (run : (session.run source).1.isStatic = false) :
    ∃ program resolution, session.accepted? source = some (program, resolution) ∧
      (session.run source).1 = .ofRun (Eval.run ampleFuel program (session.ready resolution)) := by
  rw [Session.run, isStatic_runWith] at run
  cases accepted : session.accepted? source with
  | none =>
    rw [accepted] at run
    cases run
  | some found => exact ⟨_, _, rfl, congrArg Prod.fst (runWith_eq ampleFuel accepted)⟩

/-- A text waits for input only if one of its askings does. -/
theorem exists_starved (starved : (session.run source).1 = .starved) :
    ∃ asking ∈ session.askings source, asking.found = .starved := by
  obtain ⟨program, resolution, accepted, ends⟩ :=
    exists_of_not_static (congrArg Outcome.isStatic starved)
  have asks := Eval.asks_run ampleFuel program (session.ready resolution)
  rw [starved] at ends
  rw [askings, accepted]
  cases ran : Eval.run ampleFuel program (session.ready resolution) with
  | ok value s' => rw [ran] at ends; cases ends
  | error interrupt s' =>
    rw [ran] at ends
    cases interrupt with
    | starved => exact asks.starves s' ran
    | error error | outOfFuel | misuse => cases ends

/-- A text gets stuck only if its program runs out of fuel. -/
theorem outOfFuel_of_stuck (stuck : (session.run source).1 = .stuck) :
    ∃ program resolution s', session.accepted? source = some (program, resolution) ∧
      Eval.run ampleFuel program (session.ready resolution) = .error .outOfFuel s' := by
  obtain ⟨program, resolution, accepted, ends⟩ :=
    exists_of_not_static (congrArg Outcome.isStatic stuck)
  rw [stuck] at ends
  refine ⟨program, resolution, ?_⟩
  cases ran : Eval.run ampleFuel program (session.ready resolution) with
  | ok value s' => rw [ran] at ends; cases ends
  | error interrupt s' =>
    rw [ran] at ends
    cases interrupt with
    | outOfFuel => exact ⟨s', accepted, rfl⟩
    | misuse => exact absurd ran (Eval.run_not_misuse ampleFuel program _ s')
    | error error | starved => cases ends

end Session

/-! ## 2. Turns -/

namespace Prompt

/-- The askings of a turn of the prompt, beginning with its own. -/
def askings (session : Session) : List Asking :=
  .prompt session ::
    match session.readLine.1 with
    | .line source => session.readLine.2.askings source
    | _ => []

variable {session : Session} {source : String}

/-- What follows a text that has been run. -/
def nextOf : Outcome → Next
  | .finished | .failed _ => .turn
  | .starved => .starved
  | .stuck => .exit stuckExit

theorem promptTurn_of_line (found : session.readLine.1 = .line source) :
    (promptTurn session).next = nextOf (session.readLine.2.run source).1 ∧
      (promptTurn session).session = (session.readLine.2.run source).2.takeOutput.2 := by
  rw [promptTurn]
  cases hread : session.readLine with
  | mk line behind =>
    rw [hread] at found
    cases found
    dsimp only
    cases (behind.run source).1 <;> exact ⟨rfl, rfl⟩

theorem next_of_ended (found : session.readLine.1 = .ended) :
    (promptTurn session).next = .exit 0 := by
  rw [promptTurn]
  cases hread : session.readLine with
  | mk line behind =>
    rw [hread] at found
    cases found
    rfl

theorem session_of_not_line (other : ∀ source, session.readLine.1 ≠ .line source) :
    (promptTurn session).session = session.readLine.2 := by
  rw [promptTurn]
  cases hread : session.readLine with
  | mk found behind =>
    rw [hread] at other
    cases found with
    | line source => exact absurd rfl (other source)
    | ended | invalid | starved => rfl

/-- The input behind a turn is what its askings have left. -/
theorem serves_turn (session : Session) :
    session.state.input.Serves (askings session) (promptTurn session).session.state.input := by
  have asks : session.readLine.2.state.input.Serves (askings session).tail
      (promptTurn session).session.state.input := by
    rw [askings, List.tail_cons]
    cases found : session.readLine.1 with
    | line source =>
      rw [(promptTurn_of_line found).2]
      exact session.readLine.2.serves_run source
    | ended | invalid | starved =>
      rw [session_of_not_line (by rw [found]; nofun)]
      exact .done _
  exact @Input.Serves.asking (.prompt session) _ _ asks

/-- The sessions in which the turns of a prompt begin, in order, if there are at most so many. -/
def sessions : (turns : Nat) → Session → List Session
  | 0, _ => []
  | turns + 1, session =>
    session ::
      match (promptTurn session).next with
      | .turn => sessions turns (promptTurn session).session
      | .exit _ | .starved => []

/-- A later turn begins with the input that the turns before it have left, and what follows it are
the turns from there on. -/
theorem sessions_split {turns : Nat} {later : Session} {before after : List Session}
    (h : sessions turns session = before ++ later :: after) :
    session.state.input.Serves (before.flatMap askings) later.state.input ∧
      ∃ left, sessions (left + 1) later = later :: after := by
  induction turns generalizing session before with
  | zero => cases before <;> cases h
  | succ turns ih =>
    cases before with
    | nil =>
      have first := (List.cons.inj h).1
      subst first
      exact ⟨.done _, turns, h⟩
    | cons first before =>
      obtain ⟨rfl, rest⟩ := List.cons.inj h
      cases next : (promptTurn session).next with
      | turn =>
        rw [next] at rest
        obtain ⟨serves, left⟩ := ih rest
        exact ⟨(serves_turn session).trans serves, left⟩
      | exit code | starved =>
        rw [next] at rest
        cases before <;> cases rest

/-- Over all turns, the input is what the askings have left. -/
theorem serves_sessions (turns : Nat) (session : Session) :
    ∃ last, session.state.input.Serves ((sessions turns session).flatMap askings) last := by
  induction turns generalizing session with
  | zero => exact ⟨_, .done _⟩
  | succ turns ih =>
    rw [sessions, List.flatMap_cons]
    cases (promptTurn session).next with
    | turn =>
      obtain ⟨last, rest⟩ := ih (promptTurn session).session
      exact ⟨last, (serves_turn session).trans rest⟩
    | exit code | starved =>
      rw [List.flatMap_nil, List.append_nil]
      exact ⟨_, serves_turn session⟩

/-- A turn whose text fails is followed by another one. -/
theorem next_of_failed {failure : Failure} (found : session.readLine.1 = .line source)
    (failed : (session.readLine.2.run source).1 = .failed failure) :
    (promptTurn session).next = .turn := by
  rw [(promptTurn_of_line found).1, failed]
  rfl

theorem exists_next {left : Nat} {after : List Session}
    (follow : sessions (left + 1) session = session :: after)
    (next : (promptTurn session).next = .turn) (more : after ≠ []) :
    ∃ rest, after = (promptTurn session).session :: rest := by
  rw [sessions, next] at follow
  obtain rfl := (List.cons.inj follow).2
  cases left with
  | zero => exact absurd rfl more
  | succ left => exact ⟨_, rfl⟩

end Prompt

/-! ## 3. Inputs that hold a text -/

section Text

variable {text : String} {n : Nat}

/-- **Askings are served with the lines of a text, one by one.** -/
theorem Input.Serves.behind {askings : List Asking} {last : Input}
    (h : (Input.behind text n).Serves askings last) :
    last = .behind text (n + askings.length) ∧
      ∀ (i : Nat) (asking : Asking), askings[i]? = some asking →
        asking.input = .behind text (n + i) := by
  generalize hstart : Input.behind text n = start at h
  induction h generalizing n with
  | done input =>
    refine ⟨hstart.symm, fun i asking found => ?_⟩
    cases found
  | @asking asking askings last rest ih =>
    have left : Input.behind text (n + 1) = asking.rest := by
      rw [Asking.rest, ← hstart, readLine_behind]
    obtain ⟨end_eq, later⟩ := ih left
    refine ⟨?_, fun i other found => ?_⟩
    · rw [end_eq, List.length_cons, Nat.add_assoc, Nat.add_comm 1]
    · cases i with
      | zero =>
        cases found
        exact hstart.symm
      | succ i =>
        rw [later i other found, Nat.add_assoc, Nat.add_comm 1]

/-- What an asking finds that is served from a text. -/
theorem Asking.found_of_behind {asking : Asking} (h : asking.input = .behind text n) :
    asking.found = .of (Text.lines text)[n]? := by
  rw [found, h, Input.readLine_behind]

/-- Such an asking never waits. -/
theorem Asking.found_ne_starved {asking : Asking} (h : asking.input = .behind text n) :
    asking.found ≠ .starved := by
  rw [found_of_behind h]
  cases (Text.lines text)[n]? <;> nofun

/-- A call of `input` answers with the line that it takes, or with `nil`. -/
theorem Eval.inputLine_behind {s : State} (start : s.input = .behind text n) (line : Nat) :
    Eval.inputLine line s = .ok
      (((Text.lines text)[n]?.map fun found => .string (Text.dropEnding found)).getD .nil)
      { s with input := .behind text (n + 1) } := by
  have read : Eval.readLine s = .ok (.of (Text.lines text)[n]?)
      { s with input := .behind text (n + 1) } := by
    have both := Input.readLine_behind text n
    rw [← start] at both
    change EStateM.Result.ok s.input.readLine.1 { s with input := s.input.readLine.2 } = _
    rw [both]
  rw [Eval.inputLine, Eval.bind_of_ok read]
  cases (Text.lines text)[n]? <;> rfl

/-- A call of `input` answers with its line, without the end, and with `nil` just if there are no
more lines. -/
theorem Eval.apply_input_behind {s : State} (start : s.input = .behind text n) (fuel line : Nat) :
    ∃ answer s', Eval.apply (fuel + 1) (.builtin .input) [] line s = .ok answer s' ∧
      (∀ found, (Text.lines text)[n]? = some found →
        ∃ value, answer = .string value ∧ Text.Trims found value) ∧
      (answer = .nil ↔ (Text.lines text).length ≤ n) := by
  have answered := inputLine_behind start line
  rw [← Task.run_input fuel line] at answered
  refine ⟨_, _, answered, ?_, ?_⟩
  · intro found here
    rw [here]
    exact ⟨_, rfl, Text.trims_dropEnding found⟩
  · rw [← List.getElem?_eq_none_iff]
    cases (Text.lines text)[n]? <;> simp

end Text

namespace Prompt

variable {session : Session} {text : String} {n : Nat}

/-- The askings of all turns are served with the lines of the text, one by one. -/
theorem served (start : session.state.input = .behind text 0) {turns i : Nat} {asking : Asking}
    (found : ((sessions turns session).flatMap askings)[i]? = some asking) :
    asking.input = .behind text i := by
  obtain ⟨last, serves⟩ := serves_sessions turns session
  rw [start] at serves
  rw [serves.behind.2 i asking found, Nat.zero_add]

/-- How a prompt comes to its end with a turn: the turn finds the end of the input, or its program
runs out of fuel. -/
inductive Concludes (session : Session) : (code : Nat) → Prop where
  | ended (found : session.readLine.1 = .ended) : Concludes session 0
  | stuck {source : String} {program : List Stmt} {resolution : Resolution} {s : State}
      (found : session.readLine.1 = .line source)
      (accepted : session.readLine.2.accepted? source = some (program, resolution))
      (stuck : Eval.run Session.ampleFuel program (session.readLine.2.ready resolution) =
        .error .outOfFuel s) : Concludes session stuckExit

/-- A turn takes the lines of its askings.  There is another one behind it, unless it concludes the
prompt. -/
theorem turn_cases (start : session.state.input = .behind text n) :
    (promptTurn session).session.state.input = .behind text (n + (askings session).length) ∧
      (((promptTurn session).next = .turn ∧ n < (Text.lines text).length) ∨
        ∃ code, (promptTurn session).next = .exit code ∧ Concludes session code) := by
  have serves := serves_turn session
  rw [start] at serves
  obtain ⟨left, served⟩ := serves.behind
  refine ⟨left, ?_⟩
  have read : session.readLine.1 = .of (Text.lines text)[n]? :=
    Asking.found_of_behind (served 0 (.prompt session) rfl)
  cases line : (Text.lines text)[n]? with
  | none =>
    rw [line] at read
    exact .inr ⟨0, next_of_ended read, .ended read⟩
  | some source =>
    rw [line] at read
    rw [(promptTurn_of_line read).1]
    cases outcome : (session.readLine.2.run source).1 with
    | finished | failed failure => exact .inl ⟨rfl, (List.getElem?_eq_some_iff.1 line).1⟩
    | starved =>
      obtain ⟨asking, mem, starved⟩ := Session.exists_starved outcome
      have asked : asking ∈ askings session := by
        rw [askings, read]
        exact List.mem_cons_of_mem _ mem
      obtain ⟨i, found⟩ := List.mem_iff_getElem?.1 asked
      exact absurd starved (Asking.found_ne_starved (served i asking found))
    | stuck =>
      obtain ⟨program, resolution, s, accepted, ran⟩ := Session.outOfFuel_of_stuck outcome
      exact .inr ⟨stuckExit, rfl, .stuck read accepted ran⟩

/-- **The turns of a prompt come to an end** when all lines have been taken, at the latest, and what
they write is what the prompt writes. -/
theorem sessions_end {turns : Nat} (start : session.state.input = .behind text n)
    (enough : (Text.lines text).length - n < turns) :
    ∃ before last code, sessions turns session = before ++ [last] ∧
      (∀ s ∈ before, (promptTurn s).next = .turn) ∧ (promptTurn last).next = .exit code ∧
      Concludes last code ∧
      takeTurns promptTurn turns session =
        ⟨code, String.join ((before ++ [last]).map fun s => (promptTurn s).stdout),
          String.join ((before ++ [last]).map fun s => (promptTurn s).stderr)⟩ := by
  induction turns generalizing session n with
  | zero => cases enough
  | succ turns ih =>
    obtain ⟨left, ⟨next, more⟩ | ⟨code, next, concludes⟩⟩ := turn_cases start
    · have taken : 0 < (askings session).length := List.length_pos_of_mem List.mem_cons_self
      obtain ⟨before, last, code, rest, goOn, ends, concludes, report⟩ := ih left (by omega)
      refine ⟨session :: before, last, code, ?_, ?_, ends, concludes, ?_⟩
      · rw [sessions, next, List.cons_append]
        exact congrArg (session :: ·) rest
      · simpa [next] using goOn
      · simp only [takeTurns, next, report, List.cons_append, List.map_cons, String.join_cons]
    · refine ⟨[], session, code, ?_, by simp, next, concludes, ?_⟩
      · rw [sessions, next]
        rfl
      · simp [takeTurns, next, String.join]

end Prompt

/-- **The prompt and the programs that are typed in it share the input, and no line of it is lost.**
Let the input be the bytes of any text.  What the prompt and the calls of `input` read, in the order
in which they read it, are the lines of the text, whole and from the first one on: the asking at any
place in this order finds what is left behind as many lines, and takes the next line, or finds the
end.  A call of `input` answers with its line, without the carriage returns and newlines at the end,
and with `nil` just if there are no more lines.

Behind each turn, the input is what its own askings have left, however its text ends.  A text that
fails is followed by another turn; if it is refused before it runs, it asks for nothing.  The prompt
comes to its end only when it finds the end of the input, or when a program does not end. -/
theorem prompt_and_programs_share_input (files : String → FileRead) (text : String) (clock : Nat) :
    let lines := Text.lines text
    let sessions := Prompt.sessions ((Text.encode text).length + 1)
      (.new ⟨Text.encode text, true⟩ none clock)
    let askings := sessions.flatMap Prompt.askings
    Text.AreLines lines text ∧
    (∀ (i : Nat) (asking : Asking), askings[i]? = some asking →
      asking.input = ⟨Text.encode (String.join (lines.drop i)), true⟩ ∧
      asking.found = .of lines[i]?) ∧
    (∀ i fuel line s, askings[i]? = some (.call fuel line s) →
      ∃ answer s', Eval.apply (fuel + 1) (.builtin .input) [] line s = .ok answer s' ∧
        (∀ found, lines[i]? = some found →
          ∃ value, answer = .string value ∧ Text.Trims found value) ∧
        (answer = .nil ↔ lines.length ≤ i)) ∧
    (∀ before session after, sessions = before ++ session :: after →
      let taken := (before.flatMap Prompt.askings).length + (Prompt.askings session).length
      (promptTurn session).session.state.input =
        ⟨Text.encode (String.join (lines.drop taken)), true⟩ ∧
      ∀ source failure, session.readLine.1 = .line source →
        (session.readLine.2.run source).1 = .failed failure →
        Prompt.askings session = .prompt session :: session.readLine.2.askings source ∧
        ((Outcome.failed failure).isStatic = true → session.readLine.2.askings source = []) ∧
        ∃ rest, after = (promptTurn session).session :: rest) ∧
    ∃ before last code, sessions = before ++ [last] ∧
      (∀ session ∈ before, (promptTurn session).next = .turn) ∧
      (promptTurn last).next = .exit code ∧ Prompt.Concludes last code ∧
      report [] files (Text.encode text) clock =
        ⟨code, String.join (sessions.map fun session => (promptTurn session).stdout),
          String.join (sessions.map fun session => (promptTurn session).stderr)⟩ := by
  intro lines sessions askings
  let first : Session := .new ⟨Text.encode text, true⟩ none clock
  have start : first.state.input = .behind text 0 := (Input.behind_zero text).symm
  have enough : lines.length - 0 < (Text.encode text).length + 1 :=
    Nat.lt_succ_of_le (Text.length_lines_le text)
  obtain ⟨before, last, code, split, goOn, ends, concludes, reports⟩ :=
    Prompt.sessions_end start enough
  change sessions = before ++ [last] at split
  refine ⟨Text.areLines_lines text, ?_, ?_, ?_, before, last, code, split, goOn, ends, concludes, ?_⟩
  · intro i asking found
    have taken : asking.input = .behind text i := Prompt.served start found
    exact ⟨taken, Asking.found_of_behind taken⟩
  · intro i fuel line s found
    exact Eval.apply_input_behind (Prompt.served start found) fuel line
  · intro before' session after here taken
    obtain ⟨serves, left, follow⟩ := Prompt.sessions_split here
    have begins : session.state.input = .behind text (before'.flatMap Prompt.askings).length := by
      rw [start] at serves
      rw [serves.behind.1, Nat.zero_add]
    refine ⟨(Prompt.turn_cases begins).1, ?_⟩
    intro source failure read failed
    have next := Prompt.next_of_failed read failed
    refine ⟨?_, ?_, Prompt.exists_next follow next ?_⟩
    · rw [Prompt.askings, read]
    · intro static
      exact Session.askings_of_static (failed ▸ static)
    · -- The last turn of all is followed by none.
      rintro rfl
      rw [split] at here
      have same : last = session := by simpa using congrArg List.getLast? here
      subst same
      cases next.symm.trans ends
  · rw [split]
    exact reports

-- The program of the first line reads the second one; the third line fails, and the prompt goes on.
example :
    let run := report [] (fun _ => .missing)
      (Text.encode "print input();\nabc\r\nnil();\nprint input();") 0
    run.exit = 0 ∧ run.stdout = "> abc\n> > nil\n> " := by
  decide +kernel

end Lox
