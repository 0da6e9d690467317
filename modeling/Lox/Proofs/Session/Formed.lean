/-
# The values of a session are formed

The first globals are formed, and so the values of a session are formed at every moment
(`Course.formed`).  What one task of a run leads to follows from the two regimes of the session:
methods stay anchored (`Course.retains`) and values stay formed (`Course.forms`).
-/
import Lox.Proofs.Eval.Forming
import Lox.Proofs.Session.Anchored

namespace Lox

/-- The classes among the first globals are those with a global name. -/
theorem formed_of_mem_globals {name : String} {value : Value} (h : (name, value) ∈ builtinGlobals)
    (heap : Heap) : value.Formed heap := by
  rcases List.mem_append.1 h with h | h
  · obtain ⟨function, -, hpair⟩ := List.mem_map.1 h
    cases hpair
    trivial
  · obtain ⟨kind, global, hpair⟩ := List.mem_map.1 h
    cases hpair
    exact Class.formed_builtin global

/-- The state before any text has run is formed. -/
theorem State.Formed.initial {past : Past} {hi : Nat} (openings : Openings past.moments 1 hi)
    (input : Input) (room : Option Nat) (clock : Nat) :
    (State.initial input room clock).Formed past where
  heap := {
    classes := fun _ _ h => by cases h
    payloads := fun _ _ h => by cases h
    fields := fun _ _ _ h => by cases h
    items := fun _ _ _ h => by cases h
    elements := fun _ _ h => by cases h }
  bound _ _ _ found := formed_of_mem_globals (mem_globals_of_get? found) _
  receivers scope declaration lt opened := by
    -- the scope of the globals has not been opened by a program
    obtain ⟨s, opens, rfl⟩ := opened
    have := (openings.within _ s opens).1
    exact absurd (Nat.lt_one_iff.1 lt) (by omega)

section Session

variable (input : Input) (room : Option Nat) (clock : Nat) (commands : List Command)

/-- The runs of a session keep to formed values. -/
theorem Course.forming_sound :
    (forming (Past.after input room clock commands)).Sound
      (Past.after input room clock commands).moments := by
  refine Lox.forming_sound (Course.openings input room clock commands)
    (Course.scoped input room clock commands).closed fun fuel task s begun => ?_
  exact ((Course.anchored input room clock commands).lasts fuel task s begun).1

/-- **The values of every session are formed**, in its state and whenever a task begins. -/
theorem Course.formed :
    ((Course.new input room clock).follow commands).Lasts
      (forming (Past.after input room clock commands)) := by
  refine Course.lasts_of_sound input room clock commands
    (Course.forming_sound input room clock commands) ?_
    (.refl (.initial (Course.openings input room clock commands) input room clock))
  exact {
    same := fun s s' h scopes heap _ => .of_same h.formed ⟨scopes, heap⟩
    top := fun fuel first s s' leads => ⟨leads.formed, trivial⟩ }

end Session

section Tasks

variable {input : Input} {room : Option Nat} {clock : Nat} {commands : List Command} {fuel : Nat}
  {task : Task} {s : State}
  (begun : (Past.after input room clock commands).moments (.begins fuel task s))

include begun

/-- What has been made for receivers, superclasses and calls is still there behind a task. -/
theorem Course.retains :
    (anchoring (Past.after input room clock commands)).EndsWell s (task.run fuel s)
      ((anchoring (Past.after input room clock commands)).gives task) := by
  obtain ⟨expected, -⟩ := (Course.anchored input room clock commands).lasts fuel task s begun
  exact ((Course.anchoring_sound input room clock commands).obeyed fuel task s begun expected).1

/-- A task leads to formed values. -/
theorem Course.forms :
    (forming (Past.after input room clock commands)).EndsWell s (task.run fuel s)
      ((forming (Past.after input room clock commands)).gives task) := by
  obtain ⟨expected, -⟩ := (Course.formed input room clock commands).lasts fuel task s begun
  exact ((Course.forming_sound input room clock commands).obeyed fuel task s begun expected).1

end Tasks

end Lox
