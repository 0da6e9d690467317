/-
# The functions and classes of a session have been declared in it

The first globals are built in, so whatever functions and classes there are in a session have come
from its programs (`Course.traced`).  And if the scopes of a fence are out of the reach of a task
when it begins, they are so throughout the task, and what they bind stays as it is
(`Course.fenced`).
-/
import Lox.Proofs.Scoping.Traces
import Lox.Proofs.Session.Lasting
import Lox.Proofs.Session.Returning

namespace Lox

/-! ## 1. States -/

/-- In the state before any text has run, there are only functions and classes that are built in. -/
theorem State.Traced.initial (past : Past) (input : Input) (room : Option Nat) (clock : Nat) :
    (State.initial input room clock).Traced past .none where
  within value held := by
    cases held with
    | bound h =>
      have found := @mem_globals_of_get? input room clock _ _ _ h
      rcases builtin_of_mem_globals found with ⟨_, rfl⟩ | ⟨kind, rfl⟩
      · exact Value.traced_of_making?_eq_none rfl
      · exact Value.traced_of_making?_eq_none rfl
    | field h => cases h
    | item h => cases h
    | element h => cases h
    | «class» h => cases h
  ordered scope outer link := by
    cases scope with
    | zero => cases link
    | succ scope => cases link
  clear := ⟨Nat.zero_lt_one, fun _ h => absurd h Fence.not_none⟩
  there _ h := absurd h Fence.not_none

section Fence

variable {past : Past} {fence : Fence} {s : State}

theorem Closure.Traced.fenced {scopes : Scopes Value} {closure : Closure}
    (h : closure.Traced past .none scopes)
    (outside : ∀ n, fence.closed n → ¬ scopes.Inside closure.scope n) :
    closure.Traced past fence scopes :=
  ⟨⟨h.clear.lt_size, outside⟩, h.made⟩

/-- Functions that keep no closed scope are traced within the fence. -/
theorem Value.Traced.fenced {scopes : Scopes Value} {value : Value}
    (h : value.Traced past .none scopes)
    (outside : ∀ closure, value.Carries closure →
      ∀ n, fence.closed n → ¬ scopes.Inside closure.scope n) :
    value.Traced past fence scopes :=
  ⟨fun closure carries => (h.closures closure carries).fenced (outside closure carries), h.levels⟩

theorem State.Traced.fenced (h : s.Traced past .none)
    (there : ∀ n, fence.All n → n ≠ globalScope ∧ n < s.scopes.all.size)
    (outside : ∀ n, fence.All n → ¬ s.scopes.Inside s.scope n)
    (unheld : ∀ closure, s.store.HoldsClosure closure →
      ∀ n, fence.closed n → ¬ s.scopes.Inside closure.scope n) : s.Traced past fence where
  within value held := (h.within value held).fenced fun closure carries =>
    unheld closure ⟨value, held, carries⟩
  ordered := h.ordered
  clear := ⟨h.clear.lt_size, outside⟩
  there := there

end Fence

/-! ## 2. Sessions -/

section Session

variable {input : Input} {room : Option Nat} {clock : Nat} {commands : List Command}

/-- **Whatever functions and classes there are in a session have been declared in it**, and no scope
is ever linked anew. -/
theorem Course.traced (input : Input) (room : Option Nat) (clock : Nat) (commands : List Command) :
    let course := (Course.new input room clock).follow commands
    course.Lasts (tracing course.past .none) := by
  have spans : (tracing (Past.after input room clock commands) .none).Spans := {
    same := fun s s' h scopes heap scope => h.traced.of_same scopes heap scope
    top := fun fuel first s s' leads => ⟨leads.traced, Value.allTraced_nil, nofun⟩ }
  exact Course.lasts_of_sound input room clock commands
    (tracing_sound (Course.scoped input room clock commands).closed (fun _ h => h) nofun) spans
    (.refl (.initial _ input room clock))

/-- **Scopes out of reach stay out of reach**, all through a task that begins in a session, and keep
what they bind, if the task runs no function that keeps one of those that are spared. -/
theorem Course.fenced {fuel : Nat} {task : Task} {s : State} {fence : Fence}
    (begun : (Past.after input room clock commands).moments (.begins fuel task s))
    (expected : (tracing (Past.after input room clock commands) fence).pre fuel task s)
    (spares : ∀ n, fence.spared n → ∀ fuel' closure arguments t,
      Moment.Reaches (.begins fuel task s) (.begins (fuel' + 1) (.applyClosure closure arguments) t) →
      ¬ t.scopes.Inside closure.scope n) :
    let regime := tracing (Past.after input room clock commands) fence
    regime.EndsWell s (task.run fuel s) (regime.gives task) ∧
      ∀ fuel' task' t, Moment.Reaches (.begins fuel task s) (.begins fuel' task' t) →
        regime.pre fuel' task' t ∧
          ∀ n, fence.All n → ∀ name, t.scopes.get? n name = s.scopes.get? n name := by
  intro regime
  have sound : regime.Sound (Moment.Reaches (.begins fuel task s)) :=
    tracing_sound (fun _ _ reaches next => reaches.tail next)
      (fun _ => Course.happened begun) spares
  obtain ⟨ends, settles⟩ := sound.obeyed fuel task s .refl expected
  refine ⟨ends, fun fuel' task' t reaches => ?_⟩
  obtain ⟨⟨expected', leads⟩, -⟩ := settles fuel' task' t reaches
  exact ⟨expected', fun n hn name =>
    (leads.same n hn name).symm.trans (ends.leads_endState.same n hn name)⟩

end Session

end Lox
