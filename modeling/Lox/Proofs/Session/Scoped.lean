/-
# The scoping of a session

A session starts with sound globals, and every command keeps it sound (`Course.Scoped`): the
resolution holds the addresses of all programs that have run, and the ids behind the next one are
free.  So a new program cannot disturb an earlier one, whose functions may still be called.

`Course.scoped` says that every course of a session is scoped, and that with it every task in the
runs of its programs begins where its code belongs.
-/
import Lox.Proofs.Scoping.Scripts
import Lox.Proofs.Syntax.Reading

namespace Lox

open Occurrence (ofStmt ofStmts)

/-! ## 1. The first state -/

namespace Bindings

variable {α : Type}

/-- What a list of pairs gives a name is in the list. -/
theorem mem_of_get?_ofList {pairs : List (String × α)} {name : String} {value : α}
    (h : (ofList pairs).get? name = some value) : (name, value) ∈ pairs := by
  have known : ∀ (pairs : List (String × α)) (bindings : Bindings α),
      (pairs.foldl (fun bindings pair => bindings.insert pair.1 pair.2) bindings).get? name =
        some value → (name, value) ∈ pairs ∨ bindings.get? name = some value := by
    intro pairs
    induction pairs with
    | nil => exact fun _ h => Or.inr h
    | cons pair rest ih =>
      intro bindings h
      rcases ih _ h with hmem | hget
      · exact Or.inl (List.mem_cons_of_mem _ hmem)
      · rw [get?_insert] at hget
        split at hget
        · rename_i hname
          cases hget
          exact Or.inl (hname ▸ List.mem_cons_self)
        · exact Or.inr hget
  rcases known pairs empty h with hmem | hempty
  · exact hmem
  · cases hempty

end Bindings

/-- The first globals are built in. -/
theorem builtin_of_mem_globals {name : String} {value : Value}
    (h : (name, value) ∈ builtinGlobals) :
    (∃ function, value = .callable (.builtin function)) ∨
      ∃ kind, value = .callable (.class (.builtin kind)) := by
  rcases List.mem_append.1 h with h | h
  · obtain ⟨function, -, hpair⟩ := List.mem_map.1 h
    exact Or.inl ⟨function, (Prod.mk.inj hpair).2.symm⟩
  · obtain ⟨kind, -, hpair⟩ := List.mem_map.1 h
    exact Or.inr ⟨kind, (Prod.mk.inj hpair).2.symm⟩

/-- `this` and `super` are not names of globals. -/
theorem ordinary_of_mem_globals {name : String} {value : Value}
    (h : (name, value) ∈ builtinGlobals) : name ≠ "this" ∧ name ≠ "super" := by
  have names : ∀ name ∈ builtinGlobals.map Prod.fst, name ≠ "this" ∧ name ≠ "super" := by decide
  exact names name (List.mem_map.2 ⟨_, h, rfl⟩)

/-- At first there are no values but the built-in ones. -/
theorem State.mem_globals_of_get? {input : Input} {room : Option Nat} {clock : Nat}
    {scope : ScopeId} {name : String} {value : Value}
    (h : (State.initial input room clock).scopes.get? scope name = some value) :
    (name, value) ∈ builtinGlobals := by
  cases scope with
  | zero => exact Bindings.mem_of_get?_ofList h
  | succ scope => cases h

/-- The state before any text has run is sound. -/
theorem State.sound_initial (input : Input) (room : Option Nat) (clock : Nat) :
    (State.initial input room clock).Sound .empty := by
  have found := @mem_globals_of_get? input room clock
  refine ⟨?_, ?_⟩
  · exact {
      values := fun scope name value h => by
        rcases builtin_of_mem_globals (found h) with ⟨_, rfl⟩ | ⟨_, rfl⟩ <;> trivial
      this := fun scope value h => absurd rfl (ordinary_of_mem_globals (found h)).1
      super := fun scope value h => absurd rfl (ordinary_of_mem_globals (found h)).2
      classes := fun id cls h => by cases h
      fields := fun id name value h => by cases h
      items := fun storage index value h => by cases h
      nodes := fun id node h => by cases h
      iterators := fun id kind iterator h => by cases h }
  · rintro o ⟨program, hprogram, -⟩
    cases hprogram

/-! ## 2. Later pasts -/

/-- A store stays sound when more has happened. -/
theorem Store.Sound.later {past past' : Past} {σ : Store} (h : σ.Sound past)
    (before : past.Before past') : σ.Sound past' where
  values scope name value found := (h.values scope name value found).later before (.refl σ)
  this := h.this
  super := h.super
  classes id cls found := (h.classes id cls found).later before (.refl σ)
  fields id name value found := (h.fields id name value found).later before (.refl σ)
  items storage index value found := (h.items storage index value found).later before (.refl σ)
  nodes id node found := (h.nodes id node found).later before (.refl σ)
  iterators := h.iterators

/-- Code can be evaluated when more has happened, as long as no program has been added. -/
theorem State.Ready.later {past past' : Past} {stack : List StaticScope} {os : List Occurrence}
    {s : State} (h : s.Ready past stack os) (before : past.Before past')
    (same : past'.programs = past.programs) : s.Ready past' stack os := by
  refine ⟨⟨h.sound.store.later before, fun o ho => h.sound.filed o ?_⟩,
    ⟨h.placed.realizes.later before (.refl _), h.placed.names⟩, h.known.later before⟩
  rwa [Past.Occurs, same] at ho

/-- The moments of a run go on as scripts do. -/
theorem Moment.During.next {fuel : Nat} {program : List Stmt} {s : State} {m m' : Moment}
    (h : Moment.During fuel program s m) (next : m.Next m') : Moment.During fuel program s m' := by
  obtain ⟨first, begins, reaches⟩ := h
  exact ⟨first, begins, reaches.tail next⟩

/-! ## 3. Programs -/

/-- Top-level code stays in no local scope. -/
theorem Stmt.after_nil (s : Stmt) : s.after [] = [] := by
  unfold after
  split <;> rfl

section Program

variable {past : Past} {fuel : Nat}
  (closed : ∀ m m', past.moments m → m.Next m' → past.moments m')

include closed

/-- The statements of a program that is known begin among the globals, and leave a sound state. -/
theorem Eval.run_scoped {program : List Stmt} (known : past.Knows (ofStmts [] program))
    (grammatical : Stmt.GrammaticalAll program) {s : State} (sound : s.Sound past)
    (global : s.scope = globalScope)
    (passed : ∀ m, Moment.Begins fuel program s m → past.moments m) :
    Ends (Eval.run fuel program s) (fun _ s' => s'.Sound past) (fun _ s' => s'.Sound past) ∧
      ∀ m, Moment.Begins fuel program s m → ∀ fuel' task s', m = .begins fuel' task s' →
        ∃ stack, task.Expects past stack s' := by
  induction program generalizing s with
  | nil => exact ⟨sound, fun _ begins => by cases begins⟩
  | cons first rest ih =>
    have hfirst : (Task.exec first).Expects past [] s :=
      ⟨⟨sound, global ▸ .globals past s.store, known.left⟩, grammatical.1⟩
    have ends := (scoping_sound closed).ends fuel (.exec first) [] s (passed _ .here) hfirst
    have place : s.SamePlace (endState (Eval.exec fuel first s)) :=
      Task.keeps_run fuel (.exec first) s
    change Ends (Eval.exec fuel first s) _ _ at ends
    have hrest : ∀ s', Eval.exec fuel first s = .ok .normal s' → s'.Sound past →
        s.SamePlace s' → Ends (Eval.run fuel rest s') (fun _ s' => s'.Sound past)
          (fun _ s' => s'.Sound past) ∧
        ∀ m, Moment.Begins fuel rest s' m → ∀ fuel' task s'', m = .begins fuel' task s'' →
          ∃ stack, task.Expects past stack s'' := by
      intro s' done sound' same
      have knownRest := known.right
      rw [Stmt.after_nil] at knownRest
      exact ih knownRest grammatical.2 sound' (same.scope.trans global)
        fun m begins => passed m (.later done begins)
    refine ⟨?_, fun m begins => ?_⟩
    · rw [Eval.run]
      refine Ends.bind ?_
      cases hexec : Eval.exec fuel first s with
      | error interrupt s' =>
        rw [hexec] at ends
        exact ends
      | ok completion s' =>
        rw [hexec] at ends place
        cases completion with
        | normal => exact (hrest s' hexec ends.1.sound place).1
        | returned value => exact ends.1.sound
    · cases begins with
      | here =>
        intro fuel' task s' hm
        cases hm
        exact ⟨[], hfirst⟩
      | later done begins =>
        rw [done] at ends place
        exact (hrest _ done ends.1.sound place).2 m begins

end Program

/-! ## 4. Sessions -/

/-- A task has begun where its code belongs, in the view of what had happened until then. -/
structure Past.Begun (past : Past) (fuel : Nat) (task : Task) (s : State) (earlier : Past)
    (stack : List StaticScope) : Prop where
  before : earlier.Before past
  closed : ∀ m m', earlier.moments m → m.Next m' → earlier.moments m'
  moment : earlier.moments (.begins fuel task s)
  expects : task.Expects earlier stack s

namespace Past.Begun

variable {past later earlier : Past} {fuel : Nat} {task : Task} {s : State}
  {stack : List StaticScope}

theorem trans (h : past.Begun fuel task s earlier stack) (before : past.Before later) :
    later.Begun fuel task s earlier stack :=
  ⟨h.before.trans before, h.closed, h.moment, h.expects⟩

/-- The task keeps to its part of the contract. -/
theorem ends (h : past.Begun fuel task s earlier stack) :
    Ends (task.run fuel s) (task.Gives earlier stack s) (fun _ s' => s'.Sound earlier) :=
  (scoping_sound h.closed).ends fuel task stack s h.moment h.expects

/-- So does whatever the task begins itself. -/
theorem next (h : past.Begun (fuel + 1) task s earlier stack) (task' : Task) (s' : State)
    (passes : task.script.Passes fuel s (.begins fuel task' s')) :
    ∃ stack', past.Begun fuel task' s' earlier stack' := by
  obtain ⟨moment, expects⟩ :=
    (scoping_sound h.closed).pre_of_reaches (.single (.mk passes)) h.moment
    fun fuel' task₀ s₀ hm => by
      cases hm
      exact ⟨stack, h.expects⟩
  obtain ⟨stack', expects⟩ := expects fuel task' s' rfl
  exact ⟨stack', h.before, h.closed, moment, expects⟩

end Past.Begun

/-- What holds between the commands of a session. -/
structure Course.Scoped (course : Course) : Prop where
  sound : course.session.state.Sound course.past
  global : course.session.state.scope = globalScope
  used : ∀ program ∈ course.past.programs, ∀ id ∈ Stmt.idsAll program, id < course.session.nextId
  free : ∀ id, course.session.nextId ≤ id →
    course.session.state.resolution.binding id = .global
  closed : ∀ m m', course.past.moments m → m.Next m' → course.past.moments m'
  /-- Every task has begun where its code belongs. -/
  begun : ∀ fuel task s, course.past.moments (.begins fuel task s) →
    ∃ earlier stack, course.past.Begun fuel task s earlier stack

/-- An occurrence in a program has one of its ids. -/
theorem Occurrence.id_mem_ofProgram {program : List Stmt} {o : Occurrence}
    (ho : o ∈ ofProgram program) {id : Id} (hid : o.role.id? = some id) :
    id ∈ Stmt.idsAll program := by
  rw [← Resolution.idsOf_ofStmts []]
  exact List.mem_filterMap.2 ⟨o, ho, hid⟩

theorem Session.le_idAfter (session : Session) (source : String) :
    session.nextId ≤ session.idAfter source := by
  unfold idAfter
  cases scanned : scan source with
  | error errors => exact Nat.le_refl _
  | ok stream => exact (parse_made scanned session.nextId).1

namespace Course.Scoped

variable {course : Course}

theorem new (input : Input) (room : Option Nat) (clock : Nat) :
    (Course.new input room clock).Scoped where
  sound := State.sound_initial input room clock
  global := rfl
  used program hprogram := by cases hprogram
  free id _ := Resolution.binding_empty id
  closed m m' hm := hm.elim
  begun fuel task s hm := hm.elim

/-- Only the store, the resolution and the ids matter. -/
theorem of_same (h : course.Scoped) {session : Session}
    (store : session.state.store = course.session.state.store)
    (scope : session.state.scope = course.session.state.scope)
    (resolution : session.state.resolution = course.session.state.resolution)
    (nextId : course.session.nextId ≤ session.nextId) : Course.Scoped ⟨session, course.past⟩ where
  sound := ⟨store ▸ h.sound.store, fun o ho => resolution ▸ h.sound.filed o ho⟩
  global := scope.trans h.global
  used program hprogram id hid := Nat.lt_of_lt_of_le (h.used program hprogram id hid) nextId
  free id hid := by
    change session.state.resolution.binding id = _
    rw [resolution]
    exact h.free id (Nat.le_trans nextId hid)
  closed := h.closed
  begun := h.begun

/-- The addresses of earlier programs stay as they are, and those of an accepted one are added. -/
theorem filed_ready (h : course.Scoped) {program : List Stmt} {resolution : Resolution} {hi : Id}
    (made : Made Stmt.idsAll Stmt.GrammaticalAll course.session.nextId hi program)
    (resolved : resolve program = .ok resolution) (fuel : Nat) (s : State) :
    ∀ o, (course.past.extend fuel program s).Occurs o →
      o.Filed (course.session.ready resolution).resolution ∧ o.Admissible := by
  obtain ⟨known, others⟩ := Resolution.of_resolve made.good made.fresh.distinct resolved
  rintro o ⟨from_, hfrom, ho⟩
  rcases List.mem_cons.1 hfrom with rfl | hfrom
  · obtain ⟨admissible, filed⟩ := known o ho
    refine ⟨fun id hid => ?_, admissible⟩
    have hfree := h.free id (made.fresh.within id (Occurrence.id_mem_ofProgram ho hid)).1
    simp only [Session.ready, Resolution.binding_absorb, filed id hid, hfree]
    split <;> simp [*]
  · obtain ⟨filed, admissible⟩ := h.sound.filed o ⟨from_, hfrom, ho⟩
    refine ⟨fun id hid => ?_, admissible⟩
    have hused := h.used from_ hfrom id (Occurrence.id_mem_ofProgram ho hid)
    have hother : resolution.binding id = .global := by
      refine others id fun hmem => ?_
      have := (made.fresh.within id hmem).1
      exact absurd hused (Nat.not_lt.2 this)
    simp only [Session.ready, Resolution.binding_absorb, hother]
    exact filed id hid

/-- An accepted program runs from a scoped session to a scoped session. -/
theorem run (h : course.Scoped) (fuel : Nat) {source : String} {program : List Stmt}
    {resolution : Resolution}
    (accepted : course.session.accepted? source = some (program, resolution)) :
    (course.step (.run fuel source)).Scoped := by
  obtain ⟨stream, scanned, parsed, hidAfter, resolved⟩ := Session.accepted?_eq_some accepted
  obtain ⟨hle, hmade⟩ := parse_made scanned course.session.nextId
  have made := hmade program parsed
  have hle : course.session.nextId ≤ course.session.idAfter source := hidAfter ▸ hle
  rw [← hidAfter] at made
  let s := course.session.ready resolution
  let past := course.past.extend fuel program s
  have before : course.past.Before past := .extend _ _ _ _
  have sound : s.Sound past :=
    ⟨h.sound.store.later before, h.filed_ready made resolved fuel s⟩
  have closed : ∀ m m', past.moments m → m.Next m' → past.moments m' := by
    intro m m' hm next
    rcases hm with hold | during
    · exact Or.inl (h.closed m m' hold next)
    · exact Or.inr (during.next next)
  have global : s.scope = globalScope := h.global
  obtain ⟨ends, begun⟩ := Eval.run_scoped closed (fun o ho => ⟨program, List.mem_cons_self, ho⟩)
    made.good sound global fun m begins => Or.inr ⟨m, begins, .refl⟩
  have place := Eval.keeps_run fuel program s
  simp only [step, Session.runWith_of_some fuel accepted, accepted, Session.evaluate_snd]
  refine {
    sound := Ends.holds_endState ends
    global := place.scope.trans global
    used := fun other hother id hid => ?_
    free := fun id hid => ?_
    closed := closed
    begun := fun fuel' task s' hm => ?_ }
  · rcases List.mem_cons.1 hother with rfl | hother
    · exact (made.fresh.within id hid).2
    · exact Nat.lt_of_lt_of_le (h.used other hother id hid) hle
  · have hlater : resolution.binding id = .global := by
      refine (Resolution.of_resolve made.good made.fresh.distinct resolved).2 id fun hmem => ?_
      exact absurd (made.fresh.within id hmem).2 (Nat.not_lt.2 hid)
    have hready : s.resolution.binding id = .global := by
      simp only [s, Session.ready, Resolution.binding_absorb, hlater]
      exact h.free id (Nat.le_trans hle hid)
    exact place.resolution ▸ hready
  · rcases hm with hold | ⟨m, begins, reaches⟩
    · obtain ⟨earlier, stack, begun⟩ := h.begun fuel' task s' hold
      exact ⟨earlier, stack, begun.trans before⟩
    · obtain ⟨moment, expects⟩ := (scoping_sound closed).pre_of_reaches reaches
        (Or.inr ⟨m, begins, .refl⟩) (begun m begins)
      obtain ⟨stack, expects⟩ := expects fuel' task s' rfl
      exact ⟨past, stack, .refl past, closed, moment, expects⟩

/-- **Every command keeps a session scoped.** -/
theorem step (h : course.Scoped) (command : Command) : (course.step command).Scoped := by
  cases command with
  | run fuel source =>
    cases accepted : course.session.accepted? source with
    | some accepted' => exact h.run fuel accepted
    | none =>
      simp only [Course.step, accepted, Session.runWith_of_none fuel accepted]
      exact h.of_same rfl rfl rfl (course.session.le_idAfter source)
  | takeOutput => exact h.of_same rfl rfl rfl (Nat.le_refl _)
  | readLine => exact h.of_same rfl rfl rfl (Nat.le_refl _)
  | feed bytes => exact h.of_same rfl rfl rfl (Nat.le_refl _)

end Course.Scoped

/-- **Every course of a session is scoped.** -/
theorem Course.scoped (input : Input) (room : Option Nat) (clock : Nat) (commands : List Command) :
    ((Course.new input room clock).follow commands).Scoped :=
  Course.follow_induction (fun _ command h => h.step command) (.new input room clock) commands

end Lox
