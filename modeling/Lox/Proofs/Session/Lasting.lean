/-
# Regimes in the course of a session

A regime says how the states of a run follow each other.  If it does not mind what happens between
the runs of a session (only the console and the resolution change there), it holds from the first
state of the session to the last one: the states in which the tasks of all runs have begun have led
to it (`Course.lasts_of_sound`).
-/
import Lox.Proofs.Eval.Regime
import Lox.Proofs.Session.Course

namespace Lox

/-! ## 1. From one run to the next -/

/-- A regime that holds between the programs of a session as well as in their runs. -/
structure Regime.Spans (r : Regime) : Prop where
  /-- Between runs the scopes and the heap stay as they are. -/
  same : ∀ s s' : State, r.leads s s → s'.scopes = s.scopes → s'.heap = s.heap →
    s'.scope = s.scope → r.leads s s'
  /-- Statements can begin wherever the regime leads to. -/
  top : ∀ fuel first s s', r.leads s s' → r.pre fuel (.exec first) s'

namespace Course

/-- A command adds to the past. -/
theorem before_step (course : Course) (command : Command) :
    course.past.Before (course.step command).past := by
  cases command with
  | run fuel source =>
    simp only [step]
    cases course.session.accepted? source with
    | none => exact .refl _
    | some accepted => exact .extend _ _ _ _
  | _ => exact .refl _

variable {past : Past} {r : Regime} {course : Course}

/-- The state of a session is one to go on from, and the states of all runs have led to it. -/
structure Lasts (r : Regime) (course : Course) : Prop where
  state : r.leads course.session.state course.session.state
  settles : r.Settles course.past.moments course.session.state

namespace Lasts

theorem lasts (h : course.Lasts r) : r.Lasts course.past.moments course.session.state :=
  fun fuel task s begun => (h.settles fuel task s begun).1

theorem of_leads (h : course.Lasts r) (sound : r.Sound past.moments) {session : Session}
    (leads : r.leads course.session.state session.state) : Lasts r ⟨session, course.past⟩ where
  state := sound.stays _ _ leads
  settles fuel task s begun := by
    obtain ⟨⟨expected, kept⟩, behind⟩ := h.settles fuel task s begun
    exact ⟨⟨expected, sound.trans _ _ _ kept leads⟩, sound.trans _ _ _ behind leads⟩

theorem run (h : course.Lasts r) (sound : r.Sound past.moments) (spans : r.Spans) {fuel : Nat}
    {source : String} {program : List Stmt} {resolution : Resolution}
    (accepted : course.session.accepted? source = some (program, resolution))
    (before : (course.step (.run fuel source)).past.Before past) :
    (course.step (.run fuel source)).Lasts r := by
  simp only [step, accepted] at before
  simp only [step, accepted, Session.runWith_of_some fuel accepted, Session.evaluate_snd]
  have ready : r.leads course.session.state (course.session.ready resolution) :=
    spans.same _ _ h.state rfl rfl rfl
  have passed : ∀ m, Moment.Begins fuel program (course.session.ready resolution) m →
      past.moments m := fun m begins => before.moments m (Or.inr ⟨m, begins, .refl⟩)
  obtain ⟨ends, during⟩ := sound.run (sound.stays _ _ ready) passed
    fun first t leads => spans.top fuel first _ t leads
  have leads := sound.trans _ _ _ ready ends.leads_endState
  refine ⟨sound.stays _ _ leads, fun fuel' task s moment => ?_⟩
  rcases moment with earlier | moment
  · obtain ⟨⟨expected, kept⟩, behind⟩ := h.settles fuel' task s earlier
    exact ⟨⟨expected, sound.trans _ _ _ kept leads⟩, sound.trans _ _ _ behind leads⟩
  · exact during fuel' task s moment

/-- Every command of a session keeps to the regime. -/
theorem step (h : course.Lasts r) (sound : r.Sound past.moments) (spans : r.Spans)
    (command : Command) (before : (course.step command).past.Before past) :
    (course.step command).Lasts r := by
  cases command with
  | run fuel source =>
    cases accepted : course.session.accepted? source with
    | some found => exact h.run sound spans accepted before
    | none =>
      simp only [Course.step, accepted, Session.runWith_of_none fuel accepted]
      exact h.of_leads sound h.state
  | takeOutput | readLine | feed bytes =>
    exact h.of_leads sound (spans.same _ _ h.state rfl rfl rfl)

end Lasts

/-- **A regime that is sound for all runs of a session holds throughout the session.** -/
theorem lasts_of_sound (input : Input) (room : Option Nat) (clock : Nat) (commands : List Command)
    (sound : r.Sound (Past.after input room clock commands).moments) (spans : r.Spans)
    (initial : r.leads (.initial input room clock) (.initial input room clock)) :
    ((Course.new input room clock).follow commands).Lasts r := by
  let course := (Course.new input room clock).follow commands
  have start : (Course.new input room clock).Lasts r := ⟨initial, fun _ _ _ h => h.elim⟩
  -- the past of the whole session bounds those of the courses on the way
  exact Course.follow_induction
    (p := fun part => part.past.Before course.past → part.Lasts r)
    (fun part command ih before =>
      (ih ((part.before_step command).trans before)).step sound spans command before)
    (fun _ => start) commands (.refl _)

end Course

end Lox
