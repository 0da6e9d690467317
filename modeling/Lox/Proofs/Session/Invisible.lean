/-
# Texts that are refused leave no trace

A text with scan, syntax or static errors is not run.  All that it leaves behind is that its ids
are used up, so that the programs of later texts have other ids than they would have without it.
No report of a later text depends on these (`refused_texts_are_invisible`).
-/
import Lox.Proofs.Session.Likeness
import Lox.Proofs.Syntax.Ending

namespace Lox

/-- A run that ends before it has begun: the text has scan, syntax or static errors. -/
def Outcome.isStatic : Outcome → Bool
  | .failed (.scanErrors _) | .failed (.syntaxErrors _) | .failed (.staticErrors _) => true
  | _ => false

/-- What there is to see of a run: how it ends and what it prints. -/
structure Report where
  outcome : Outcome
  printed : String

namespace Session

/-- Runs a text and takes out what it has printed. -/
def report (fuel : Nat) (session : Session) (source : String) : Report × Session :=
  let (outcome, after) := session.runWith fuel source
  let (printed, after) := after.takeOutput
  (⟨outcome, printed⟩, after)

/-- The reports of texts that are run one after the other. -/
def reports (fuel : Nat) : Session → List String → List Report
  | _, [] => []
  | session, source :: rest =>
    let (report, after) := session.report fuel source
    report :: reports fuel after rest

/-- The texts that are left if those are deleted whose runs end in scan, syntax or static errors. -/
def remaining (fuel : Nat) : Session → List String → List String
  | _, [] => []
  | session, source :: rest =>
    let (report, after) := session.report fuel source
    if report.outcome.isStatic then remaining fuel after rest
    else source :: remaining fuel after rest

end Session

/-! ## 1. Refused texts -/

theorem Session.isStatic_evaluate (fuel : Nat) (session : Session) (program : List Stmt)
    (resolution : Resolution) :
    (session.evaluate fuel program resolution).1.isStatic = false := by
  unfold evaluate
  dsimp only
  split <;> rfl

/-- A run ends in scan, syntax or static errors just if the text is not accepted. -/
theorem Session.isStatic_runWith (fuel : Nat) (session : Session) (source : String) :
    (session.runWith fuel source).1.isStatic = (session.accepted? source).isNone := by
  cases accepted : session.accepted? source with
  | some found => rw [runWith_of_some fuel accepted, isStatic_evaluate, Option.isNone_some]
  | none =>
    unfold accepted? at accepted
    unfold runWith
    cases scanned : scan source with
    | error errors => rfl
    | ok stream =>
      simp only [scanned] at accepted ⊢
      cases parsed : (parse stream session.nextId).result with
      | error failure =>
        cases failure with
        | errors errors => rfl
        | outOfFuel => exact absurd parsed (parse_ends stream session.nextId)
      | ok program =>
        simp only [parsed] at accepted ⊢
        cases resolved : resolve program with
        | error errors => rfl
        | ok resolution =>
          simp only [resolved] at accepted
          cases accepted

/-- A text that is refused prints nothing. -/
theorem Session.report_of_none {session : Session} (fuel : Nat) {source : String}
    (refused : session.accepted? source = none) (silent : session.state.output.text = "") :
    (session.report fuel source).2 = (session.runWith fuel source).2 := by
  obtain ⟨⟨scopes, scope, depth, heap, stamp, resolution, ⟨text, room⟩, input, clock⟩, nextId⟩ :=
    session
  cases silent
  unfold report
  dsimp only
  rw [runWith_of_none fuel refused]
  rfl

/-! ## 2. Sessions with and without them -/

section Pair

variable {m : Likeness} {course course' : Course} (fuel : Nat) (source : String)

/-- The course of a session in which a text is run and its output taken out. -/
def Course.report (course : Course) (fuel : Nat) (source : String) : Course :=
  (course.step (.run fuel source)).step .takeOutput

theorem Course.session_report (course : Course) :
    (course.report fuel source).session = (course.session.report fuel source).2 := rfl

theorem Course.Scoped.report (known : course.Scoped) : (course.report fuel source).Scoped :=
  (known.step _).step _

/-- What is accepted has the same report in sessions that are alike. -/
theorem Session.Alike.report (h : course.session.Alike m course'.session) (known : course.Scoped)
    (known' : course'.Scoped) (same : m.lines = Eq) {accepted : List Stmt × Resolution}
    (accepts : course.session.accepted? source = some accepted) :
    (course.session.report fuel source).1 = (course'.session.report fuel source).1 ∧
      ∃ m', m'.lines = Eq ∧
        (course.report fuel source).session.Alike m' (course'.report fuel source).session := by
  obtain ⟨m', lines, outcomes, sessions⟩ :=
    h.run known known' (fun l => by rw [same]) fuel accepts
  have eq : m'.lines = Eq := lines.trans same
  obtain ⟨printed, after⟩ := sessions.takeOutput
  refine ⟨?_, m', eq, after⟩
  exact congrArg₂ Report.mk (outcomes.eq fun l l' like => by rwa [eq] at like) printed

end Pair

/-- Without the refused texts of one session, a session that is like it has the same reports. -/
theorem reports_remaining (fuel : Nat) (texts : List String) {m : Likeness} (same : m.lines = Eq)
    {course course' : Course} (h : course.session.Alike m course'.session)
    (silent : course.session.state.output.text = "") (known : course.Scoped)
    (known' : course'.Scoped) :
    course'.session.reports fuel (course.session.remaining fuel texts) =
      (course.session.reports fuel texts).filter fun report => !report.outcome.isStatic := by
  induction texts generalizing m course course' with
  | nil => rfl
  | cons source rest ih =>
    have static : (course.session.report fuel source).1.outcome.isStatic =
      (course.session.accepted? source).isNone := Session.isStatic_runWith fuel _ source
    rw [Session.remaining, Session.reports, List.filter_cons]
    dsimp only
    rw [static, ← Course.session_report]
    cases accepted : course.session.accepted? source with
    | none =>
      have like : (course.report fuel source).session.Alike m course'.session := by
        rw [Course.session_report, Session.report_of_none fuel accepted silent]
        exact h.refuse fuel accepted
      exact ih same like rfl (known.report fuel source) known'
    | some found =>
      obtain ⟨report, m', same', like⟩ := h.report fuel source known known' same accepted
      change (course'.session.report fuel source).1 ::
        (course'.report fuel source).session.reports fuel _ = _ :: _
      rw [← report, ih same' like rfl (known.report fuel source) (known'.report fuel source)]

/-- **Texts that are refused are invisible.**  If all texts whose runs end in scan, syntax or static
errors are deleted from a session, then every other one still ends in the same way, with the same
error if it ends in one, and prints the same. -/
theorem refused_texts_are_invisible (input : Input) (room : Option Nat) (clock fuel : Nat)
    (texts : List String) :
    let session := Session.new input room clock
    session.reports fuel (session.remaining fuel texts) =
      (session.reports fuel texts).filter fun report => !report.outcome.isStatic := by
  have start : (Session.new input room clock).Alike (.below 0 Eq) (Session.new input room clock) :=
    ⟨State.alike_initial _ input room clock, fun i j used => ⟨used.2, used.1 ▸ used.2⟩,
      Likeness.oneToOne_below _ _⟩
  have known := Course.Scoped.new input room clock
  exact reports_remaining fuel texts rfl start rfl known known

-- A refused text uses up an id all the same, so that the ids of the texts behind it do differ.
example : ((Session.new ⟨[], true⟩ none 0).runWith 1 "a b").2.nextId = 1 := by cbv

end Lox
