/-
# What leads into a scope

A scope is out of reach when a task begins if the current scope does not lie in it, and none of the
functions that there are keeps a scope in it (`Task.OutOfReach`).  Then the task never gets there,
nor does anything that it leaves behind (`Course.stays_out_of_reach`).

The functions that do keep a scope in it have been declared there (`Past.MadeIn`).  As long as none
of these is run, the scope is left alone as well (`Course.left_alone`).
-/
import Lox.Proofs.Session.Payload
import Lox.Proofs.Session.Traced

namespace Lox

/-- Whether a scope is made for an activation: a block, a turn of a `foreach` loop or a call. -/
def ScopeOrigin.isActivation : ScopeOrigin → Bool
  | block _ | iteration .. | call _ => true
  | receiver _ | superclass _ => false

/-! ## 1. Functions that are there -/

/-- A function is there when a task begins: it is held, the task is given it, or runs it. -/
inductive Task.Has (task : Task) (s : State) : Closure → Prop where
  | held {closure : Closure} (held : s.store.HoldsClosure closure) : Has task s closure
  | given {value : Value} {closure : Closure} (mem : value ∈ task.values)
      (carries : value.Carries closure) : Has task s closure
  | run {closure : Closure} {arguments : List Value} (same : task = .applyClosure closure arguments) :
      Has task s closure

/-- Neither the current scope nor that of a function lies in a scope. -/
structure Task.OutOfReach (task : Task) (s : State) (n : ScopeId) : Prop where
  current : ¬ s.scopes.Inside s.scope n
  functions : ∀ closure, task.Has s closure → ¬ s.scopes.Inside closure.scope n

/-- A task leaves a scope alone: nothing that it does begins inside, and what is bound there stays
as it is. -/
structure Task.LeavesAlone (task : Task) (fuel : Nat) (s : State) (n : ScopeId) : Prop where
  outside : ∀ fuel' task' t, Moment.Reaches (.begins fuel task s) (.begins fuel' task' t) →
    ¬ t.scopes.Inside t.scope n
  meanwhile : ∀ fuel' task' t, Moment.Reaches (.begins fuel task s) (.begins fuel' task' t) →
    ∀ name, t.scopes.get? n name = s.scopes.get? n name
  behind : ∀ name, (endState (task.run fuel s)).scopes.get? n name = s.scopes.get? n name

/-- In a state of the past, the declaration of a function has been executed, or that of the class
that has it as a method. -/
inductive Past.Declares (past : Past) (closure : Closure) (s : State) : Prop where
  | function {fuel : Nat}
      (begun : past.moments (.begins (fuel + 1) (.exec (.funDecl closure.declaration)) s))
      (kept : closure.scope = s.scope)
  | method {fuel : Nat} {name : Name} {superclass : Option Variable} {methods : List FunDecl}
      (begun : past.moments (.begins (fuel + 1) (.exec (.classDecl name superclass methods)) s))
      (declared : closure.declaration ∈ methods)

/-- A function has been made in a scope or further inside: its declaration has been executed there.
The scope that it keeps is the one in which that was done, or lies in it. -/
def Past.MadeIn (past : Past) (scopes : Scopes Value) (n : ScopeId) (closure : Closure) : Prop :=
  ∃ s, past.Declares closure s ∧ scopes.Inside closure.scope s.scope ∧ scopes.Inside s.scope n

section MadeIn

variable {past : Past} {scopes : Scopes Value} {closure : Closure} {n : ScopeId}

theorem ClassInfo.MadeFrom.mem {info : ClassInfo} {name : Name} {methods : List FunDecl}
    {scope : ScopeId} (h : info.MadeFrom name methods scope) {method : String}
    (own : info.methods.get? method = some closure) : closure.declaration ∈ methods := by
  have last := h.last method
  rw [own] at last
  exact List.mem_of_find?_eq_some (List.findRev?_eq_find?_reverse ▸ last.symm) |> List.mem_reverse.1

/-- A scope was made neither for the receiver of a method nor for a superclass. -/
structure Past.Plain (past : Past) (n : ScopeId) : Prop where
  receiver : ∀ method, ¬ past.Opened n (.receiver method)
  superclass : ∀ methods, ¬ past.Opened n (.superclass methods)

/-- Where a class has been declared that has a method: the method keeps the scope that was current
then, or one in it that was made for the superclass. -/
theorem Past.Makes.declared {level : Class} (h : past.Makes scopes level) {name : String}
    (own : level.methods.get? name = some closure) :
    ∃ fuel name superclass methods s,
      past.moments (.begins (fuel + 1) (.exec (.classDecl name superclass methods)) s) ∧
      closure.declaration ∈ methods ∧ scopes.Inside closure.scope s.scope ∧
      ∀ n, past.Plain n → scopes.Inside closure.scope n → scopes.Inside s.scope n := by
  cases h with
  | builtin kind => cases own
  | base begun made =>
    have kept := (made.kept _ _ own).1
    exact ⟨_, _, _, _, _, begun, made.mem own, kept ▸ .refl .., fun n _ inside => kept ▸ inside⟩
  | derived begun evaluated opened link made =>
    rw [← (made.kept _ _ own).1] at opened link
    refine ⟨_, _, _, _, _, begun, made.mem own, (Scopes.inside_of_liesIn link).2 (.inr (.refl ..)),
      fun n plain inside => ?_⟩
    rcases (Scopes.inside_of_liesIn link).1 inside with rfl | inside
    · exact absurd opened (plain.superclass _)
    · exact inside

/-- A function keeps the scope of its declaration, or one in it, and between the two there are at
most scopes for a receiver or a superclass. -/
theorem Past.MakesClosure.declared (h : past.MakesClosure scopes closure) :
    ∃ s, past.Declares closure s ∧ scopes.Inside closure.scope s.scope ∧
      ∀ n, past.Plain n → scopes.Inside closure.scope n → scopes.Inside s.scope n := by
  cases h with
  | function begun kept =>
    exact ⟨_, .function begun kept, kept ▸ .refl .., fun n _ inside => kept ▸ inside⟩
  | method makes own =>
    obtain ⟨_, _, _, _, s, begun, mem, around⟩ := makes.declared own
    exact ⟨s, .method begun mem, around⟩
  | bound makes own same link opened =>
    obtain ⟨_, _, _, _, s, begun, mem, kept, around⟩ := makes.declared own
    refine ⟨s, .method begun (same ▸ mem), (Scopes.inside_of_liesIn link).2 (.inr kept),
      fun n plain inside => ?_⟩
    rcases (Scopes.inside_of_liesIn link).1 inside with rfl | inside
    · exact absurd opened (plain.receiver _)
    · exact around n plain inside

/-- **What keeps a scope in that of an activation has been made there**, and the other way round. -/
theorem Past.MakesClosure.inside_iff (h : past.MakesClosure scopes closure) (plain : past.Plain n) :
    scopes.Inside closure.scope n ↔ past.MadeIn scopes n closure := by
  constructor
  · intro inside
    obtain ⟨s, declares, kept, around⟩ := h.declared
    exact ⟨s, declares, kept, around n plain inside⟩
  · rintro ⟨s, -, kept, inside⟩
    exact kept.trans inside

end MadeIn

/-! ## 2. Sessions -/

section Session

variable {input : Input} {room : Option Nat} {clock : Nat} {commands : List Command}
  {fuel : Nat} {task : Task} {s : State} {n : ScopeId}

/-- What is there when a task begins has a past. -/
theorem Course.expected
    (begun : (Past.after input room clock commands).moments (.begins fuel task s)) :
    (tracing (Past.after input room clock commands) .none).pre fuel task s :=
  ((Course.traced input room clock commands).lasts fuel task s begun).1

/-- So has what is there when it ends. -/
theorem Course.traced_endState
    (begun : (Past.after input room clock commands).moments (.begins fuel task s)) :
    s.Traces (Past.after input room clock commands) .none (endState (task.run fuel s)) :=
  (Course.fenced begun (Course.expected begun) nofun).1.leads_endState

theorem Course.traced_of_reached {t : State}
    (reached : ((Course.new input room clock).follow commands).Reached t) :
    t.Traced (Past.after input room clock commands) .none := by
  cases reached with
  | last => exact (Course.traced input room clock commands).state.traced
  | begins begun => exact (Course.expected begun).1
  | ends begun => exact (Course.traced_endState begun).traced

/-- The scopes of the states of a session are those of the last one, as far as they are there. -/
theorem Course.extends_of_reached {t : State}
    (reached : ((Course.new input room clock).follow commands).Reached t) :
    t.scopes.Extends ((Course.new input room clock).follow commands).session.state.scopes := by
  have traced := Course.traced input room clock commands
  cases reached with
  | last => exact .refl traced.state.traced.ordered
  | begins begun => exact (traced.settles _ _ _ begun).1.2.extended
  | ends begun => exact (traced.settles _ _ _ begun).2.extended

/-- Every function that is there has been made in a way that is known. -/
theorem Course.made_of_has
    (begun : (Past.after input room clock commands).moments (.begins fuel task s))
    {closure : Closure} (has : task.Has s closure) :
    closure.Traced (Past.after input room clock commands) .none s.scopes := by
  obtain ⟨traced, given, applied⟩ := Course.expected begun
  cases has with
  | held held =>
    obtain ⟨value, held, carries⟩ := held
    exact (traced.within value held).closures closure carries
  | given mem carries => exact (given _ mem).closures closure carries
  | run same => exact applied closure _ same

/-- The scope of an activation is not that of the globals, and was made for nothing else. -/
theorem Course.activation {origin : ScopeOrigin}
    (opened : (Past.after input room clock commands).Opened n origin)
    (activation : origin.isActivation) :
    n ≠ globalScope ∧ (Past.after input room clock commands).Plain n := by
  have openings := Course.openings input room clock commands
  refine ⟨?_, fun method other => ?_, fun methods other => ?_⟩
  · obtain ⟨s, opens, rfl⟩ := opened
    exact Nat.ne_of_gt (openings.within origin s opens).1
  · cases Past.Opened.origin_eq openings opened other
    cases activation
  · cases Past.Opened.origin_eq openings opened other
    cases activation

/-- **Functions that lead into an activation have been made in it.** -/
theorem Course.leads_in_iff
    (begun : (Past.after input room clock commands).moments (.begins fuel task s))
    {closure : Closure} (has : task.Has s closure) {origin : ScopeOrigin}
    (opened : (Past.after input room clock commands).Opened n origin)
    (activation : origin.isActivation) :
    s.scopes.Inside closure.scope n ↔
      (Past.after input room clock commands).MadeIn s.scopes n closure := by
  exact (Course.made_of_has begun has).made.inside_iff (Course.activation opened activation).2

/-- **What is out of reach stays so.**  If nothing leads into a scope when a task begins, nothing
does so at any time until it ends, and neither does anything that it leaves behind. -/
theorem Course.stays_out_of_reach
    (begun : (Past.after input room clock commands).moments (.begins fuel task s))
    (there : n ≠ globalScope ∧ n < s.scopes.all.size) (out : task.OutOfReach s n) :
    task.LeavesAlone fuel s n ∧
      (∀ fuel' task' t, Moment.Reaches (.begins fuel task s) (.begins fuel' task' t) →
        task'.OutOfReach t n) ∧
      Ends (task.run fuel s)
        (fun v s' => ∀ closure, s'.store.HoldsClosure closure ∨
          (∃ value ∈ task.answered v, value.Carries closure) →
            ¬ s'.scopes.Inside closure.scope n)
        fun _ s' => ∀ closure, s'.store.HoldsClosure closure →
          ¬ s'.scopes.Inside closure.scope n := by
  obtain ⟨traced, given, applied⟩ := Course.expected begun
  have all : ∀ m, (Fence.closing n).All m → m = n := fun _ h => h.resolve_right id
  have here : (Fence.closing n).closed n := rfl
  have expected :
      (tracing (Past.after input room clock commands) (.closing n)).pre fuel task s := by
    refine ⟨traced.fenced (fun m hm => all m hm ▸ there) (fun m hm => all m hm ▸ out.current) ?_,
      fun value mem => (given value mem).fenced ?_,
      fun closure arguments same => (applied closure arguments same).fenced ?_⟩
    · rintro closure held _ rfl
      exact out.functions closure (.held held)
    · rintro closure carries _ rfl
      exact out.functions closure (.given mem carries)
    · rintro _ rfl
      exact out.functions closure (.run same)
  obtain ⟨ends, within⟩ := Course.fenced begun expected nofun
  have held : ∀ {t : State}, t.Traced (Past.after input room clock commands) (.closing n) →
      ∀ closure, t.store.HoldsClosure closure → ¬ t.scopes.Inside closure.scope n := by
    rintro t traced closure ⟨value, held, carries⟩
    exact ((traced.within value held).closures closure carries).clear.outside n here
  refine ⟨⟨fun fuel' task' t reaches => ?_, fun fuel' task' t reaches name => ?_, fun name => ?_⟩,
    fun fuel' task' t reaches => ?_, ?_⟩
  · exact (within fuel' task' t reaches).1.1.clear.outside n (.inl here)
  · exact (within fuel' task' t reaches).2 n (.inl here) name
  · exact ends.leads_endState.same n (.inl here) name
  · obtain ⟨⟨traced, given, applied⟩, -⟩ := within fuel' task' t reaches
    refine ⟨traced.clear.outside n (.inl here), fun closure has => ?_⟩
    cases has with
    | held h => exact held traced closure h
    | given mem carries => exact ((given _ mem).closures closure carries).clear.outside n here
    | run same => exact (applied closure _ same).clear.outside n here
  · refine Ends.imp ends (fun v s' h closure has => ?_) fun _ s' h => held h.traced
    rcases has with h' | ⟨value, mem, carries⟩
    · exact held h.1.traced closure h'
    · exact ((h.2 value mem).closures closure carries).clear.outside n here

/-- **The scope of an activation is left alone** by a task that begins outside and runs no function
that has been made inside. -/
theorem Course.left_alone
    (begun : (Past.after input room clock commands).moments (.begins fuel task s))
    {origin : ScopeOrigin} (opened : (Past.after input room clock commands).Opened n origin)
    (activation : origin.isActivation) (there : n < s.scopes.all.size)
    (outside : ¬ s.scopes.Inside s.scope n)
    (foreign : ∀ fuel' closure arguments t,
      Moment.Reaches (.begins fuel task s) (.begins fuel' (.applyClosure closure arguments) t) →
      ¬ (Past.after input room clock commands).MadeIn t.scopes n closure) :
    task.LeavesAlone fuel s n := by
  obtain ⟨traced, given, applied⟩ := Course.expected begun
  obtain ⟨other, -⟩ := Course.activation opened activation
  have all : ∀ m, (Fence.sparing n).All m → m = n := fun _ h => h.resolve_left id
  have here : (Fence.sparing n).All n := .inr rfl
  have expected :
      (tracing (Past.after input room clock commands) (.sparing n)).pre fuel task s :=
    ⟨traced.fenced (fun m hm => all m hm ▸ ⟨other, there⟩) (fun m hm => all m hm ▸ outside) nofun,
      fun value mem => (given value mem).fenced nofun,
      fun closure arguments same => (applied closure arguments same).fenced nofun⟩
  have spares : ∀ m, m = n → ∀ fuel' closure arguments t,
      Moment.Reaches (.begins fuel task s) (.begins (fuel' + 1) (.applyClosure closure arguments) t) →
      ¬ t.scopes.Inside closure.scope m := by
    rintro _ rfl fuel' closure arguments t reaches inside
    have begun' := Course.happened begun reaches
    exact foreign _ closure arguments t reaches
      ((Course.leads_in_iff begun' (.run rfl) opened activation).1 inside)
  obtain ⟨ends, within⟩ := Course.fenced begun expected spares
  exact ⟨fun fuel' task' t reaches => (within fuel' task' t reaches).1.1.clear.outside n here,
    fun fuel' task' t reaches => (within fuel' task' t reaches).2 n here,
    ends.leads_endState.same n here⟩

end Session

end Lox
