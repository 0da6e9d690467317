/-
# A failing writer only truncates

Of two new sessions that are told the same, one has a writer that takes so many newlines and no
more, and the other one a writer without a limit.  As long as what is printed without a limit fits,
both sessions reply the same and are in the same state (`Course.lockstep`).  The first text that
prints too much ends in the one session with the first print that does not fit, and with no trace
of it.

Main statement: `failing_writer_only_truncates`.
-/
import Lox.Proofs.Eval.Lockstep
import Lox.Proofs.Session.Texts

namespace Lox

open Account

/-! ## 1. Programs -/

/-- The texts that a program prints. -/
def Eval.prints (fuel : Nat) (program : List Stmt) (s : State) : List String :=
  (Script.ofProgram program).prints fuel (Task.prints fuel) s

/-- What is to be said of a program. -/
def Eval.account (fuel : Nat) (program : List Stmt) (s : State) : Account Unit :=
  ⟨Eval.run fuel program s, Moment.trace fuel program s, Eval.prints fuel program s⟩

theorem Script.trace_ofProgram (fuel : Nat) (program : List Stmt) (s : State) :
    (ofProgram program).trace fuel (Task.trace fuel) s = Moment.trace fuel program s := by
  induction program generalizing s with
  | nil => rfl
  | cons first rest ih =>
    have called : ofProgram (first :: rest) = .call .same (.exec first) _ := rfl
    rw [called]
    simp only [trace, Frame.enter, Moment.trace, Task.run]
    refine congrArg _ ?_
    cases Eval.exec fuel first s with
    | error interrupt t => rfl
    | ok completion t =>
      cases completion with
      | normal => exact ih t
      | returned value => rfl

theorem Eval.account_eq (fuel : Nat) (program : List Stmt) (s : State) :
    Eval.account fuel program s = (Script.ofProgram program).account fuel s := by
  rw [account, Script.account, Script.trace_ofProgram, Script.run_ofProgram, prints]

/-- A program does the same with a limited writer as with one that has no limit, up to the first
print that is refused. -/
theorem Eval.lockstep (fuel : Nat) (program : List Stmt) (s : State) :
    Lockstep s (Eval.account fuel program s) (Eval.account fuel program s.unlimited) := by
  rw [account_eq, account_eq]
  exact (Script.detached_ofProgram program).lockstep (Script.acts_ofProgram program)
    (fun task s fits => Task.lockstep fuel fits s) s

/-- Without a limit nothing is refused. -/
theorem Eval.taken_unlimited (fuel : Nat) (program : List Stmt) (s : State) :
    (Eval.account fuel program s.unlimited).Taken s.unlimited := by
  rcases Eval.lockstep fuel program s.unlimited with ⟨-, taken⟩ | ⟨refusal, refused⟩
  · exact taken
  · have room : refusal.state.output.room = none := by
      rw [refused.output, Output.room_printAll]
      rfl
    have refuses := refusal.refuses
    rw [Output.takes, room] at refuses
    cases refuses

/-- What is refused has more newlines than the writer has room for. -/
theorem Account.Refused.full {α : Type} {s : State} {limited unlimited : Account α}
    {refusal : Refusal} (h : limited.Refused s unlimited refusal) {room : Nat}
    (found : s.output.room = some room) :
    room < newlinesToPrintAll (limited.prints ++ [refusal.text]) := by
  have left : refusal.state.output.room = some (room - newlinesToPrintAll limited.prints) := by
    rw [h.output, Output.room_printAll, found]
    rfl
  have refuses := refusal.refuses
  rw [Output.takes, left] at refuses
  have more := of_decide_eq_false refuses
  rw [Output.newlinesToPrintAll_append]
  change room < _ + (newlinesToPrint (refusal.state.heap.text refusal.value) + 0)
  omega

/-! ## 2. Texts -/

theorem endState_unlimitedEnd {α : Type} (result : EStateM.Result Interrupt State α) :
    endState (unlimitedEnd result) = (endState result).unlimited := by
  cases result <;> rfl

theorem Outcome.ofRun_unlimitedEnd (result : EStateM.Result Interrupt State Unit) :
    ofRun (unlimitedEnd result) = ofRun result := by
  cases result with
  | ok v s => rfl
  | error interrupt s => cases interrupt <;> rfl

namespace Session

/-- The session in which the writer has no limit. -/
def unlimited (session : Session) : Session := { session with state := session.state.unlimited }

/-- The texts that are printed when a program text is run. -/
def prints (session : Session) (fuel : Nat) (source : String) : List String :=
  match session.accepted? source with
  | some (program, resolution) => Eval.prints fuel program (session.ready resolution)
  | none => []

/-- How a text that is not accepted ends: that does not depend on the state. -/
theorem outcome_of_none {session : Session} {source : String} (fuel : Nat)
    (h : session.accepted? source = none) (state : State) :
    ({ session with state := state }.runWith fuel source).1 = (session.runWith fuel source).1 ∧
      ∀ error, (session.runWith fuel source).1 ≠ .failed (.runtimeError error) := by
  unfold accepted? at h
  unfold runWith
  cases hscan : scan source with
  | error errors => exact ⟨rfl, fun _ same => by cases same⟩
  | ok stream =>
    simp only [hscan] at h ⊢
    cases hparse : (parse stream session.nextId).result with
    | error failure => cases failure <;> exact ⟨rfl, fun _ same => by cases same⟩
    | ok program =>
      simp only [hparse] at h ⊢
      cases hresolve : resolve program with
      | error errors => exact ⟨rfl, fun _ same => by cases same⟩
      | ok resolution =>
        simp only [hresolve] at h
        cases h

/-- A text is run without a refused print. -/
structure Taken (session : Session) (fuel : Nat) (source : String) : Prop where
  same : session.unlimited.runWith fuel source =
    ((session.runWith fuel source).1, (session.runWith fuel source).2.unlimited)
  prints : session.unlimited.prints fuel source = session.prints fuel source
  takes : session.state.output.TakesAll (session.prints fuel source)
  output : (session.runWith fuel source).2.state.output =
    session.state.output.printAll (session.prints fuel source)
  unclosed : ∀ line, (session.runWith fuel source).1 ≠ .failed (.runtimeError ⟨.outputClosed, line⟩)

theorem prints_of_none {session : Session} (fuel : Nat) {source : String}
    (refused : session.accepted? source = none) : session.prints fuel source = [] := by
  rw [prints, refused]

theorem prints_of_some {session : Session} (fuel : Nat) {source : String} {program : List Stmt}
    {resolution : Resolution} (accepted : session.accepted? source = some (program, resolution)) :
    session.prints fuel source = Eval.prints fuel program (session.ready resolution) := by
  rw [prints, accepted]

/-- **A text does the same with a limited writer as with one that has no limit**, up to the first
print that is refused. -/
theorem lockstep (session : Session) (fuel : Nat) (source : String) :
    session.Taken fuel source ∨ ∃ program resolution refusal,
      session.accepted? source = some (program, resolution) ∧
      (Eval.account fuel program (session.ready resolution)).Refused (session.ready resolution)
        (Eval.account fuel program (session.ready resolution).unlimited) refusal := by
  cases accepted : session.accepted? source with
  | none =>
    obtain ⟨outcome, static⟩ := outcome_of_none fuel accepted session.state.unlimited
    have printed := prints_of_none fuel accepted
    have after := runWith_of_none fuel accepted
    have accepted' : session.unlimited.accepted? source = none := accepted
    refine .inl ⟨?_, ?_, ?_, ?_, fun line => static _⟩
    · refine Prod.ext outcome ?_
      rw [runWith_of_none fuel accepted', after]
      rfl
    · rw [prints_of_none fuel accepted', printed]
    · rw [printed]
      exact Output.takesAll_nil
    · rw [printed, after]
      rfl
  | some found =>
    obtain ⟨program, resolution⟩ := found
    rcases Eval.lockstep fuel program (session.ready resolution) with
      ⟨same, taken⟩ | ⟨refusal, refused⟩
    · have printed := prints_of_some fuel accepted
      have after := runWith_eq fuel accepted
      have accepted' : session.unlimited.accepted? source = some (program, resolution) := accepted
      have ready : session.unlimited.ready resolution = (session.ready resolution).unlimited := rfl
      have ran : Eval.run fuel program (session.ready resolution).unlimited =
          unlimitedEnd (Eval.run fuel program (session.ready resolution)) :=
        congrArg Account.result same
      refine .inl ⟨?_, ?_, ?_, ?_, ?_⟩
      · rw [runWith_eq fuel accepted', after, ready, ran, Outcome.ofRun_unlimitedEnd,
          endState_unlimitedEnd]
        rfl
      · rw [prints_of_some fuel accepted', printed, ready]
        exact congrArg Account.prints same
      · rw [printed]
        exact taken.takes
      · rw [printed, after]
        exact taken.output
      · intro line failed
        rw [after] at failed
        obtain ⟨t, failed⟩ := Outcome.ofRun_eq_failed.1 failed
        exact taken.unclosed line t failed
    · exact .inr ⟨program, resolution, refusal, rfl, refused⟩

/-- If a print is refused, then without a limit more is printed than the writer has room for. -/
theorem full_of_refused {session : Session} {fuel : Nat} {source : String} {program : List Stmt}
    {resolution : Resolution} {refusal : Refusal} {room : Nat}
    (accepted : session.accepted? source = some (program, resolution))
    (refused : (Eval.account fuel program (session.ready resolution)).Refused
      (session.ready resolution) (Eval.account fuel program (session.ready resolution).unlimited)
      refusal)
    (found : session.state.output.room = some room) :
    room < newlinesToPrintAll (session.unlimited.prints fuel source) := by
  have accepted' : session.unlimited.accepted? source = some (program, resolution) := accepted
  have full := refused.full found
  obtain ⟨rest, more⟩ := refused.prints
  rw [prints_of_some fuel accepted']
  change room < newlinesToPrintAll
    (Eval.account fuel program (session.ready resolution).unlimited).prints
  rw [← more, Output.newlinesToPrintAll_append]
  exact Nat.lt_of_lt_of_le full (Nat.le_add_right _ _)

/-- A refused print ends the text, and puts the place back. -/
theorem runWith_of_refused {session : Session} {fuel : Nat} {source : String}
    {program : List Stmt} {resolution : Resolution} {refusal : Refusal}
    (accepted : session.accepted? source = some (program, resolution))
    (refused : (Eval.account fuel program (session.ready resolution)).Refused
      (session.ready resolution) (Eval.account fuel program (session.ready resolution).unlimited)
      refusal) :
    session.runWith fuel source =
      (.failed (.runtimeError ⟨.outputClosed, refusal.line⟩),
        ⟨refusal.stop session.state, session.idAfter source⟩) := by
  have result := refused.result
  change Eval.run fuel program (session.ready resolution) = _ at result
  rw [runWith_eq fuel accepted, result]
  rfl

/-- What a text prints without a limit is added to the output. -/
theorem text_unlimited {session : Session} (fuel : Nat) {source : String} {program : List Stmt}
    {resolution : Resolution} (accepted : session.accepted? source = some (program, resolution)) :
    (session.unlimited.runWith fuel source).2.state.output.text = session.state.output.text ++
      printedText (Eval.prints fuel program (session.ready resolution).unlimited) := by
  have accepted' : session.unlimited.accepted? source = some (program, resolution) := accepted
  have output := (Eval.taken_unlimited fuel program (session.ready resolution)).output
  have text := congrArg Output.text output
  rw [Output.text_printAll] at text
  rw [runWith_eq fuel accepted']
  exact text

end Session

/-! ## 3. Sessions -/

/-- What a session replies to a command. -/
inductive Reply where
  | ended (outcome : Outcome)
  | output (text : String)
  | line (found : LineRead)
  | none

/-- The reply to a command. -/
def Session.reply (session : Session) : Command → Reply
  | .run fuel source => .ended (session.runWith fuel source).1
  | .takeOutput => .output session.takeOutput.1
  | .readLine => .line session.readLine.1
  | .feed _ => .none

/-- The texts that a command prints. -/
def Session.printsAt (session : Session) : Command → List String
  | .run fuel source => session.prints fuel source
  | _ => []

namespace Course

/-- The replies to some commands. -/
def replies : Course → List Command → List Reply
  | _, [] => []
  | course, command :: rest => course.session.reply command :: (course.step command).replies rest

/-- The texts that some commands print. -/
def prints : Course → List Command → List String
  | _, [] => []
  | course, command :: rest => course.session.printsAt command ++ (course.step command).prints rest

theorem replies_concat (course : Course) (commands : List Command) (command : Command) :
    course.replies (commands ++ [command]) =
      course.replies commands ++ [(course.follow commands).session.reply command] := by
  induction commands generalizing course with
  | nil => rfl
  | cons first rest ih => exact congrArg _ (ih (course.step first))

theorem prints_concat (course : Course) (commands : List Command) (command : Command) :
    course.prints (commands ++ [command]) =
      course.prints commands ++ (course.follow commands).session.printsAt command := by
  induction commands generalizing course with
  | nil => exact List.append_nil _
  | cons first rest ih =>
    refine (congrArg _ (ih (course.step first))).trans ?_
    exact (List.append_assoc ..).symm

theorem follow_concat (course : Course) (commands : List Command) (command : Command) :
    course.follow (commands ++ [command]) = (course.follow commands).step command :=
  List.foldl_concat ..

variable {input : Input} {limit clock : Nat} {commands : List Command}

/-- **As long as what is printed fits, both sessions are in the same state and reply the same.** -/
theorem lockstep
    (fits : newlinesToPrintAll ((new input none clock).prints commands) ≤ limit) :
    let limited := new input (some limit) clock
    let unlimited := new input none clock
    (unlimited.follow commands).session = (limited.follow commands).session.unlimited ∧
      limited.replies commands = unlimited.replies commands ∧
      limited.prints commands = unlimited.prints commands ∧
      (limited.follow commands).session.state.output.room =
        some (limit - newlinesToPrintAll (limited.prints commands)) := by
  intro limited unlimited
  induction commands using List.reverseRecOn with
  | nil => exact ⟨rfl, rfl, rfl, rfl⟩
  | append_singleton commands command ih =>
    rw [prints_concat, Output.newlinesToPrintAll_append] at fits
    obtain ⟨same, replies, prints, room⟩ := ih (Nat.le_of_add_right_le fits)
    rw [follow_concat, follow_concat, replies_concat, replies_concat, prints_concat, prints_concat,
      replies, prints, same]
    rw [same] at fits
    rw [prints] at room
    cases command with
    | run fuel source =>
      rcases Session.lockstep (limited.follow commands).session fuel source with
        taken | ⟨program, resolution, refusal, accepted, refused⟩
      · simp only [Session.reply, Session.printsAt, step, same, taken.same, taken.prints, true_and]
        rw [taken.output, Output.room_printAll, room, Output.newlinesToPrintAll_append]
        exact congrArg some (Nat.sub_sub ..)
      · have full := Session.full_of_refused accepted refused room
        change newlinesToPrintAll (unlimited.prints commands) +
          newlinesToPrintAll (Session.prints _ _ _) ≤ _ at fits
        omega
    | takeOutput | readLine | feed bytes =>
      refine ⟨?_, rfl, rfl, ?_⟩
      · simp only [step, same]
        rfl
      · simp only [Session.printsAt, List.append_nil]
        exact room

end Course

/-- **A failing writer only truncates.**  One session has a writer that takes `limit` newlines and
refuses the first print that needs more, and the other one a writer without a limit.  They are told
the same, and what the second one has printed so far fits in.

Then both sessions are in the same state, the room apart, and have replied the same and printed the
same.  The next text ends with a refused print in the first session just if it prints too much in
the second one.  In that case the run comes to the same moments in the same states until a print
whose value is evaluated to the same, and whose text does not fit.  The error is on the line of this
print.  None of its text is in the output, so that what the text prints is, in whole prints, the
beginning of what it prints without a limit, which goes on with the text that was refused.  The
state is the one in which that was to be printed, with the output closed, in the scope of the
globals and with no call in progress. -/
theorem failing_writer_only_truncates (input : Input) (limit clock : Nat) (before : List Command)
    (fuel : Nat) (source : String)
    (fits : newlinesToPrintAll ((Course.new input none clock).prints before) ≤ limit) :
    let limited := Course.new input (some limit) clock
    let unlimited := Course.new input none clock
    let session := (limited.follow before).session
    let total := newlinesToPrintAll (unlimited.prints (before ++ [.run fuel source]))
    ((unlimited.follow before).session = session.unlimited ∧
      limited.replies before = unlimited.replies before ∧
      limited.prints before = unlimited.prints before) ∧
    ((∃ line, (session.runWith fuel source).1 = .failed (.runtimeError ⟨.outputClosed, line⟩)) ↔
      limit < total) ∧
    (limit < total → ∃ program resolution, ∃ refusal : Refusal,
      session.accepted? source = some (program, resolution) ∧
      let start := session.ready resolution
      let printed := Eval.prints fuel program start
      newlinesToPrintAll (limited.prints before ++ printed) ≤ limit ∧
      limit < newlinesToPrintAll (limited.prints before ++ printed ++ [refusal.text]) ∧
      refusal.moment ∈ Moment.trace fuel program start ∧
      (Moment.trace fuel program start).map Moment.unlimited <+:
        Moment.trace fuel program start.unlimited ∧
      printed ++ [refusal.text] <+: Eval.prints fuel program start.unlimited ∧
      refusal.state.output.text = start.output.text ++ printedText printed ∧
      session.runWith fuel source =
        (.failed (.runtimeError ⟨.outputClosed, refusal.line⟩),
          ⟨{ refusal.state with
              output := refusal.state.output.close
              scope := globalScope
              depth := 0 }, session.idAfter source⟩) ∧
      (session.unlimited.runWith fuel source).2.state.output.text =
        start.output.text ++ printedText (Eval.prints fuel program start.unlimited)) := by
  intro limited unlimited session total
  obtain ⟨same, replies, prints, left⟩ := Course.lockstep fits
  have room : session.state.output.room =
      some (limit - newlinesToPrintAll (unlimited.prints before)) := prints ▸ left
  replace prints : limited.prints before = unlimited.prints before := prints
  replace fits : newlinesToPrintAll (unlimited.prints before) ≤ limit := fits
  have total_eq : total = newlinesToPrintAll (unlimited.prints before) +
      newlinesToPrintAll (session.unlimited.prints fuel source) := by
    change newlinesToPrintAll (unlimited.prints (before ++ [.run fuel source])) = _
    rw [Course.prints_concat, Output.newlinesToPrintAll_append, same]
    rfl
  rcases Session.lockstep session fuel source with
    taken | ⟨program, resolution, refusal, accepted, refused⟩
  · have little : total ≤ limit := by
      have takes := taken.takes _ room
      rw [total_eq, taken.prints]
      omega
    refine ⟨⟨same, replies, prints⟩, ⟨?_, ?_⟩, fun more => absurd little (Nat.not_le_of_lt more)⟩
    · rintro ⟨line, failed⟩
      exact absurd failed (taken.unclosed line)
    · exact fun more => absurd little (Nat.not_le_of_lt more)
  · have ran := Session.runWith_of_refused accepted refused
    have more : limit < total := by
      have full := Session.full_of_refused accepted refused room
      omega
    have takes := refused.takes _ room
    have full := refused.full room
    change newlinesToPrintAll (Eval.prints fuel program (session.ready resolution)) ≤ _ at takes
    change _ < newlinesToPrintAll (Eval.prints fuel program (session.ready resolution) ++ _) at full
    obtain ⟨scope, depth⟩ := Course.place input (some limit) clock before
    refine ⟨⟨same, replies, prints⟩, ⟨fun _ => more, fun _ => ⟨refusal.line, by rw [ran]⟩⟩,
      fun _ => ⟨program, resolution, refusal, accepted, ?_, ?_, refused.passed, refused.moments,
        refused.prints, ?_, ?_, Session.text_unlimited fuel accepted⟩⟩
    · rw [prints, Output.newlinesToPrintAll_append]
      omega
    · rw [prints, List.append_assoc, Output.newlinesToPrintAll_append]
      omega
    · rw [refused.output, Output.text_printAll]
      rfl
    · rw [ran, Refusal.stop, show session.state.scope = globalScope from scope,
        show session.state.depth = 0 from depth]

namespace Full

/-- A function is declared that prints, and something is printed. -/
def first : String := "fun f() \x7b print \"in\"; \x7d print \"a\";"

/-- Something is printed, and the function is called by a print. -/
def second : String := "print \"b\";\nprint f();"

/-- A new session, in which a writer has room for two newlines. -/
abbrev limited : Course := .new ⟨[], true⟩ (some 2) 0

/-- A new session without a limit. -/
abbrev unlimited : Course := .new ⟨[], true⟩ none 0

/-- The session behind the first text. -/
abbrev session : Session := (limited.follow [.run 40 first]).session

/-- What the second text prints with a limit and without. -/
def printed : Option (List String × List String) :=
  (session.accepted? second).map fun (program, resolution) =>
    (Eval.prints 40 program (session.ready resolution),
      Eval.prints 40 program (session.ready resolution).unlimited)

/-- The line of the error, if the second text ends with a refused print. -/
def line? : Option Nat :=
  match (session.runWith 40 second).1 with
  | .failed (.runtimeError ⟨.outputClosed, line⟩) => some line
  | _ => none

end Full

/-- The first text prints a line, and so does the second one, until the function that is called in a
print has to print a third one. -/
theorem print_in_call_is_refused :
    newlinesToPrintAll (Full.unlimited.prints [.run 40 Full.first]) ≤ 2 ∧
      2 < newlinesToPrintAll (Full.unlimited.prints [.run 40 Full.first, .run 40 Full.second]) ∧
      ∃ program resolution, ∃ refusal : Refusal,
        Full.session.accepted? Full.second = some (program, resolution) ∧
        refusal.moment ∈ Moment.trace 40 program (Full.session.ready resolution) ∧
        refusal.text = "in" ∧ refusal.line = 1 ∧
        (Full.session.runWith 40 Full.second).1 = .failed (.runtimeError ⟨.outputClosed, 1⟩) ∧
        (Full.session.runWith 40 Full.second).2.state.output.text = "a\nb\n" ∧
        (Full.session.runWith 40 Full.second).2.state.depth = 0 ∧
        (Full.session.unlimited.runWith 40 Full.second).2.state.output.text =
          "a\nb\nin\nnil\n" := by
  have fits : newlinesToPrintAll (Full.unlimited.prints [.run 40 Full.first]) ≤ 2 := by
    decide +kernel
  have more : 2 < newlinesToPrintAll
      (Full.unlimited.prints [.run 40 Full.first, .run 40 Full.second]) := by
    decide +kernel
  have printed : Full.printed = some (["b"], ["b", "in", "nil"]) := by decide +kernel
  have line : Full.line? = some 1 := by decide +kernel
  have output : Full.session.state.output.text = "a\n" := by decide +kernel
  obtain ⟨-, -, refused⟩ :=
    failing_writer_only_truncates ⟨[], true⟩ 2 0 [.run 40 Full.first] 40 Full.second fits
  obtain ⟨program, resolution, refusal, accepted, -, -, passed, -, goes_on, text, ran, behind⟩ :=
    refused more
  rw [Full.printed, accepted] at printed
  obtain ⟨limited, unlimited⟩ := Prod.mk.inj (Option.some.inj printed)
  rw [limited] at goes_on text
  rw [unlimited] at goes_on behind
  have text_eq : refusal.text = "in" := by
    obtain ⟨rest, same⟩ := goes_on
    exact (List.cons.inj (List.cons.inj same).2).1
  rw [Full.line?, ran] at line
  have line_eq : refusal.line = 1 := Option.some.inj line
  change refusal.state.output.text = Full.session.state.output.text ++ _ at text
  change _ = Full.session.state.output.text ++ _ at behind
  rw [output] at text behind
  refine ⟨fits, more, program, resolution, refusal, accepted, passed, text_eq, line_eq, ?_, ?_, ?_,
    behind⟩
  · rw [ran, line_eq]
  · rw [ran]
    exact text
  · rw [ran]

end Lox
