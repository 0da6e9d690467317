/-
# The methods of a session stay anchored

The first globals are built in, so a session starts anchored, and it stays so from one program to
the next.  `Course.anchored` says besides that the state of the session has retained whatever there
was at any moment of its past: what the scopes of functions, of receivers and of superclasses were
made for can be seen in all later states.
-/
import Lox.Proofs.Scoping.Constructs
import Lox.Proofs.Session.Lasting
import Lox.Proofs.Session.Scoped

namespace Lox

/-- The state before any text has run is anchored. -/
theorem State.Anchored.initial (past : Past) (input : Input) (room : Option Nat) (clock : Nat) :
    (State.initial input room clock).Anchored past := by
  have found := @mem_globals_of_get? input room clock
  have ordinary : ∀ {scope name}, (State.initial input room clock).scopes.binds scope name →
      Ordinary name := by
    intro scope name binds
    obtain ⟨value, h⟩ := Option.isSome_iff_exists.1 binds
    exact ordinary_of_mem_globals (found h)
  have alone : ∀ {scope next},
      (State.initial input room clock).scopes.enclosing? scope ≠ some next := by
    intro scope next h
    cases scope with
    | zero => cases h
    | succ scope => cases h
  refine ⟨?_, ?_, fun name => ordinary⟩
  · exact {
      values := fun value held => by
        cases held with
        | bound h =>
          rcases builtin_of_mem_globals (found h) with ⟨_, rfl⟩ | ⟨kind, rfl⟩
          · trivial
          · exact (Value.harmless_anchored past _).builtin kind
        | field h => cases h
        | item h => cases h
        | element h => cases h
        | «class» h => cases h
      linked := fun scope next h => absurd h alone
      alone := fun scope name other reserved binds => absurd (ordinary binds) reserved
      receivers := fun scope value h =>
        absurd (ordinary (Scopes.binds_of_get? h)) reserved_this
      calls := fun call scope receiver h => absurd h alone }
  · exact Nat.zero_lt_one

/-- What holds between the commands of a session, in the view of all that happens in it. -/
structure Course.Anchored (past : Past) (course : Course) : Prop where
  state : course.session.state.Anchored past
  /-- What there was whenever a task began is still there. -/
  lasts : (anchoring past).Lasts course.past.moments course.session.state

section Session

variable (input : Input) (room : Option Nat) (clock : Nat) (commands : List Command)

/-- The runs of a session keep functions and methods anchored. -/
theorem Course.anchoring_sound :
    (anchoring (Past.after input room clock commands)).Sound
      (Past.after input room clock commands).moments := by
  have hscoped := Course.scoped input room clock commands
  refine Lox.anchoring_sound hscoped.closed fun fuel task s begun => ?_
  obtain ⟨earlier, stack, h⟩ := hscoped.begun fuel task s begun
  exact ⟨earlier, stack, h.expects⟩

/-- **Every session is anchored**, and its state has retained what there was whenever a task
began. -/
theorem Course.anchored :
    let course := (Course.new input room clock).follow commands
    course.Anchored course.past := by
  have spans : (anchoring (Past.after input room clock commands)).Spans := {
    same := fun s s' h scopes heap scope => .of_same h.anchored scopes heap scope
    top := fun fuel first s s' leads => ⟨leads.anchored, trivial⟩ }
  have kept := Course.lasts_of_sound input room clock commands
    (Course.anchoring_sound input room clock commands) spans
    (.refl (.initial _ input room clock))
  exact ⟨kept.state.anchored, kept.lasts⟩

end Session

end Lox
