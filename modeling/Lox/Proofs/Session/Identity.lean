/-
# Ids in a session

The ids of nodes are what their resolution is filed under, for as long as the session lasts: a
function may be called long after its text has been read.  So no two nodes that a session reads may
have the same id, whatever becomes of the texts in between (`Course.Numbered`).

* A `Reading` is a text that could be read as a program, with the ids that reading it has used up.
* `Course.Sees` holds of the states that are met while a command is carried out.
* `ids_never_collide` is the result: the ids are distinct, each table that is added leaves the
  entries of earlier programs alone, and whatever is evaluated or kept in a closure has the
  bindings that resolving its own program has found.
-/
import Mathlib
import Lox.Proofs.Scoping.Holding
import Lox.Proofs.Session.Scoped

namespace Lox

open Occurrence (ofExpr ofFunction)

/-! ## 1. Texts that are read -/

/-- A text that has been read as a program, and the first ids that have been free before and behind
it. -/
structure Reading where
  program : List Stmt
  firstId : Id
  nextId : Id

/-- The ids of the nodes of a program. -/
def Reading.ids (reading : Reading) : List Id := Stmt.idsAll reading.program

/-- What a text is read as, if it has no errors of spelling or syntax. -/
def Session.reading? (session : Session) (source : String) : Option Reading :=
  match scan source with
  | .error _ => none
  | .ok stream =>
    let parsed := parse stream session.nextId
    match parsed.result with
    | .error _ => none
    | .ok program => some ⟨program, session.nextId, parsed.nextId⟩

/-- What a command reads. -/
def Course.reading? (course : Course) : Command → Option Reading
  | .run _ source => course.session.reading? source
  | _ => none

/-- What some commands read, one after the other. -/
def Course.readings (course : Course) : List Command → List Reading
  | [] => []
  | command :: rest => (course.reading? command).toList ++ (course.step command).readings rest

namespace Session

variable {session : Session} {source : String} {reading : Reading}

/-- The nodes of a text have ids of their own. -/
theorem made_of_reading? (h : session.reading? source = some reading) :
    reading.firstId = session.nextId ∧ reading.nextId = session.idAfter source ∧
      Made Stmt.idsAll Stmt.GrammaticalAll session.nextId (session.idAfter source)
        reading.program := by
  unfold reading? at h
  unfold idAfter
  cases scanned : scan source with
  | error errors =>
    rw [scanned] at h
    cases h
  | ok stream =>
    simp only [scanned] at h ⊢
    cases parsed : (parse stream session.nextId).result with
    | error failure =>
      rw [parsed] at h
      cases h
    | ok program =>
      rw [parsed] at h
      cases h
      exact ⟨rfl, rfl, (parse_made scanned session.nextId).2 program parsed⟩

/-- Of the texts that are read, those without static errors are accepted. -/
theorem accepted?_of_reading? (h : session.reading? source = some reading) :
    session.accepted? source = (resolve reading.program).toOption.map (reading.program, ·) := by
  unfold reading? at h
  unfold accepted?
  cases scanned : scan source with
  | error errors =>
    rw [scanned] at h
    cases h
  | ok stream =>
    simp only [scanned] at h ⊢
    cases parsed : (parse stream session.nextId).result with
    | error failure =>
      rw [parsed] at h
      cases h
    | ok program =>
      rw [parsed] at h
      cases h
      dsimp only
      cases resolve program <;> rfl

/-- A text that is accepted has been read. -/
theorem accepted?_of_reading?_none (h : session.reading? source = none) :
    session.accepted? source = none := by
  unfold reading? at h
  unfold accepted?
  cases scanned : scan source with
  | error errors => rfl
  | ok stream =>
    simp only [scanned] at h ⊢
    cases parsed : (parse stream session.nextId).result with
    | error failure => rfl
    | ok program =>
      rw [parsed] at h
      cases h

/-- What resolving a text finds concerns the ids of that text only. -/
theorem binding_of_reading? (h : session.reading? source = some reading) {resolution : Resolution}
    (resolved : resolve reading.program = .ok resolution) {id : Id} (foreign : id ∉ reading.ids) :
    resolution.binding id = .global := by
  obtain ⟨-, -, made⟩ := made_of_reading? h
  exact (Resolution.of_resolve made.good made.fresh.distinct resolved).2 id foreign

/-- Ids below the next one are not those of a text that is read now. -/
theorem notMem_ids_of_lt (h : session.reading? source = some reading) {id : Id}
    (used : id < session.nextId) : id ∉ reading.ids := by
  obtain ⟨-, -, made⟩ := made_of_reading? h
  intro hid
  exact Nat.not_lt.2 (made.fresh.within id hid).1 used

end Session

/-! ## 2. What a command meets -/

/-- The moments while a command is carried out. -/
def Course.During (course : Course) : Command → Moment → Prop
  | .run fuel source, m => ∃ program resolution,
      course.session.accepted? source = some (program, resolution) ∧
        Moment.During fuel program (course.session.ready resolution) m
  | _, _ => False

/-- The states that are met while a command is carried out: a task begins or ends in them, or the
session is left in them. -/
inductive Course.Sees (course : Course) (command : Command) : State → Prop where
  | begins {fuel : Nat} {task : Task} {s : State}
      (during : course.During command (.begins fuel task s)) : Sees course command s
  | ends {fuel : Nat} {task : Task} {s : State}
      (during : course.During command (.begins fuel task s)) :
      Sees course command (endState (task.run fuel s))
  | after : Sees course command (course.step command).session.state

/-- Scripts leave the resolution alone. -/
theorem Script.Passes.resolution {fuel : Nat} {α : Type} {script : Script α} {s : State}
    {m : Moment} (passes : script.Passes fuel s m) (steady : script.Steady) :
    m.state.resolution = s.resolution := by
  induction passes with
  | opening => rfl
  | @act β action next s s' answer m done later ih =>
    have kept := steady.1 s
    rw [done] at kept
    exact (ih (steady.2 answer)).trans kept.resolution
  | @begins frame task next s inner entered =>
    cases frame with
    | same | scope id =>
      cases entered
      rfl
    | call line =>
      simp only [Frame.enter] at entered
      split at entered
      · cases entered
      · cases entered
        rfl
  | @call frame task next s s' answer m done later ih =>
    have kept := Frame.keeps_around (Task.keeps_run fuel task) frame s
    rw [done] at kept
    exact (ih (steady answer)).trans kept.resolution

theorem Moment.Reaches.resolution {m m' : Moment} (reaches : m.Reaches m') :
    m'.state.resolution = m.state.resolution := by
  induction reaches with
  | refl => rfl
  | tail _ next ih =>
    cases next with
    | mk passes => exact (passes.resolution (Task.steady_script _)).trans ih

theorem Moment.During.resolution {fuel : Nat} {program : List Stmt} {s : State} {m : Moment}
    (during : Moment.During fuel program s m) : m.state.resolution = s.resolution := by
  obtain ⟨first, begins, reaches⟩ := during
  refine reaches.resolution.trans ?_
  induction begins with
  | here => rfl
  | @later first rest s s' m done begins ih =>
    have kept := Task.keeps_run fuel (.exec first) s
    change s.SamePlace (endState (Eval.exec fuel first s)) at kept
    rw [done] at kept
    exact (ih reaches).trans kept.resolution

namespace Course

variable {course : Course} {command : Command} {s : State}

/-- What happens while a command is carried out has then happened. -/
theorem During.moments {m : Moment} (during : course.During command m) :
    (course.step command).past.moments m := by
  cases command with
  | run fuel source =>
    obtain ⟨program, resolution, accepted, during⟩ := during
    simp only [step, accepted]
    exact Or.inr during
  | _ => exact during.elim

/-- A command leaves the resolution as it was, or has added that of the text that it runs. -/
theorem resolution_step (course : Course) (fuel : Nat) (source : String) :
    (course.step (.run fuel source)).session.state.resolution =
      match course.session.accepted? source with
      | some (_, resolution) => course.session.state.resolution.absorb resolution
      | none => course.session.state.resolution := by
  cases accepted : course.session.accepted? source with
  | none => simp only [step, Session.runWith_of_none fuel accepted]
  | some found =>
    obtain ⟨program, resolution⟩ := found
    simp only [step, Session.runWith_of_some fuel accepted, Session.evaluate_snd]
    exact (Eval.keeps_run fuel program (course.session.ready resolution)).resolution

theorem During.resolution {m : Moment} (during : course.During command m) :
    m.state.resolution = (course.step command).session.state.resolution := by
  cases command with
  | run fuel source =>
    obtain ⟨program, resolution, accepted, during⟩ := during
    rw [resolution_step, accepted]
    exact during.resolution
  | _ => exact during.elim

/-- All states that a command meets have the same resolution. -/
theorem Sees.resolution (sees : course.Sees command s) :
    s.resolution = (course.step command).session.state.resolution := by
  cases sees with
  | begins during => exact during.resolution
  | @ends fuel task s during =>
    exact (Task.keeps_run fuel task s).resolution.trans during.resolution
  | after => rfl

end Course

/-- A task begins in a sound state. -/
theorem Task.Expects.sound {past : Past} {stack : List StaticScope} {task : Task} {s : State}
    (h : task.Expects past stack s) : s.Sound past := by
  cases task with
  | eval | evalAll | evalOptional => exact State.Ready.sound h
  | exec | execAll | whileLoop | forEach => exact h.1.sound
  | call | apply | applyMethod | applyClosure | invoke => exact h.1
  | cursorHasItems | cursorCurrent | cursorAdvance => exact h.1

/-- It ends in one, too. -/
theorem Task.Gives.sound {past : Past} {stack : List StaticScope} {task : Task} {s s' : State}
    {answer : task.Answer} (h : task.Gives past stack s answer s') : s'.Sound past := by
  cases task with
  | cursorHasItems | cursorAdvance => exact State.Leads.sound h
  | _ => exact h.1.sound

/-- What holds closures soundly goes on to do so when more has happened. -/
theorem State.Sound.knows {past later : Past} {s : State} (h : s.Sound past)
    (before : past.Before later) {closure : Closure} (held : s.store.HoldsClosure closure) :
    ∃ stack, later.Knows (ofFunction stack closure.declaration) := by
  obtain ⟨value, holds, carries⟩ := held
  obtain ⟨stack, known⟩ := (h.store.of_holds holds).knows carries
  exact ⟨stack, known.later before⟩

/-- The code of every closure that a command meets is known. -/
theorem Course.Sees.knows {course : Course} {command : Command} {s : State}
    (hscoped : (course.step command).Scoped) (sees : course.Sees command s) {closure : Closure}
    (held : s.store.HoldsClosure closure) :
    ∃ stack, (course.step command).past.Knows (ofFunction stack closure.declaration) := by
  cases sees with
  | begins during =>
    obtain ⟨earlier, stack, begun⟩ := hscoped.begun _ _ _ during.moments
    exact begun.expects.sound.knows begun.before held
  | @ends fuel task s during =>
    obtain ⟨earlier, stack, begun⟩ := hscoped.begun _ _ _ during.moments
    have sound : (endState (task.run fuel s)).Sound earlier :=
      Ends.holds_endState (begun.ends.imp (fun _ _ gives => gives.sound) fun _ _ h => h)
    exact sound.knows begun.before held
  | after => exact hscoped.sound.knows (.refl _) held

/-! ## 3. Ids are used once -/

/-- What holds of the texts that have been read in the course of a session. -/
structure Course.Numbered (course : Course) (readings : List Reading) : Prop where
  distinct : (readings.flatMap Reading.ids).Nodup
  within : ∀ reading ∈ readings, ∀ id ∈ reading.ids, reading.firstId ≤ id ∧ id < reading.nextId
  used : ∀ reading ∈ readings, reading.nextId ≤ course.session.nextId
  /-- The table has the entries of the programs that have been accepted. -/
  filed : ∀ reading ∈ readings, ∀ resolution, resolve reading.program = .ok resolution →
    ∀ id ∈ reading.ids, course.session.state.resolution.binding id = resolution.binding id
  programs : ∀ program ∈ course.past.programs, ∃ reading ∈ readings, ∃ resolution,
    reading.program = program ∧ resolve program = .ok resolution

/-- The entry for an id in a table is the one that resolving its own program has found. -/
def Reading.Settles (reading : Reading) (table : Resolution) (id : Id) : Prop :=
  ∃ resolution, resolve reading.program = .ok resolution ∧ id ∈ reading.ids ∧
    table.binding id = resolution.binding id

namespace Course.Numbered

variable {course : Course} {readings : List Reading} {source : String} {reading : Reading}

theorem lt_nextId (h : course.Numbered readings) (mem : reading ∈ readings) {id : Id}
    (hid : id ∈ reading.ids) : id < course.session.nextId :=
  Nat.lt_of_lt_of_le (h.within reading mem id hid).2 (h.used reading mem)

/-- A command that reads nothing. -/
theorem keep (h : course.Numbered readings) {later : Course}
    (nextId : course.session.nextId ≤ later.session.nextId)
    (resolution : later.session.state.resolution = course.session.state.resolution)
    (programs : later.past.programs = course.past.programs) : later.Numbered readings where
  distinct := h.distinct
  within := h.within
  used reading mem := Nat.le_trans (h.used reading mem) nextId
  filed := by
    rw [resolution]
    exact h.filed
  programs := by
    rw [programs]
    exact h.programs

/-- The ids of a text that is read now are new. -/
theorem distinct_snoc (h : course.Numbered readings)
    (read : course.session.reading? source = some reading) :
    ((readings ++ [reading]).flatMap Reading.ids).Nodup := by
  obtain ⟨-, -, made⟩ := Session.made_of_reading? read
  rw [List.flatMap_append, List.flatMap_singleton]
  refine List.nodup_append.2 ⟨h.distinct, made.fresh.distinct, ?_⟩
  intro id hold other hnew heq
  subst heq
  obtain ⟨old, mem, hid⟩ := List.mem_flatMap.1 hold
  exact Session.notMem_ids_of_lt read (h.lt_nextId mem hid) hnew

/-- A table that is added leaves alone what the table of the session says of ids in use. -/
theorem absorb_of_lt (read : course.session.reading? source = some reading)
    {resolution : Resolution} (resolved : resolve reading.program = .ok resolution) {id : Id}
    (used : id < course.session.nextId) :
    resolution.binding id = .global ∧
      (course.session.state.resolution.absorb resolution).binding id =
        course.session.state.resolution.binding id := by
  have none : resolution.binding id = .global :=
    Session.binding_of_reading? read resolved (Session.notMem_ids_of_lt read used)
  refine ⟨none, ?_⟩
  rw [Resolution.binding_absorb, none]

/-- It has the last word on its own ids. -/
theorem absorb_of_mem (hscoped : course.Scoped)
    (read : course.session.reading? source = some reading) (resolution : Resolution) {id : Id}
    (hid : id ∈ reading.ids) :
    (course.session.state.resolution.absorb resolution).binding id = resolution.binding id := by
  obtain ⟨-, -, made⟩ := Session.made_of_reading? read
  have free := hscoped.free id (made.fresh.within id hid).1
  rw [Resolution.binding_absorb]
  cases found : resolution.binding id with
  | «local» hops => rfl
  | global => exact free

/-- A text that has been read moves the next id on. -/
theorem nextId_step (fuel : Nat) (read : course.session.reading? source = some reading) :
    (course.step (.run fuel source)).session.nextId = reading.nextId := by
  have accepted := Session.accepted?_of_reading? read
  obtain ⟨-, next, -⟩ := Session.made_of_reading? read
  rw [next]
  cases resolved : resolve reading.program with
  | error errors =>
    rw [resolved] at accepted
    simp only [Course.step, Session.runWith_of_none fuel accepted]
  | ok resolution =>
    rw [resolved] at accepted
    simp only [Course.step, Session.runWith_of_some fuel accepted, Session.evaluate_snd]

/-- A text is read, and run if it is accepted. -/
theorem read (h : course.Numbered readings) (hscoped : course.Scoped) (fuel : Nat)
    (read : course.session.reading? source = some reading) :
    (course.step (.run fuel source)).Numbered (readings ++ [reading]) := by
  have accepted := Session.accepted?_of_reading? read
  obtain ⟨first, next, made⟩ := Session.made_of_reading? read
  have table := resolution_step course fuel source
  rw [accepted] at table
  refine {
    distinct := h.distinct_snoc read
    within := ?_
    used := ?_
    filed := ?_
    programs := ?_ }
  · intro other mem id hid
    rcases List.mem_append.1 mem with mem | mem
    · exact h.within other mem id hid
    · obtain rfl := List.mem_singleton.1 mem
      rw [first, next]
      exact made.fresh.within id hid
  · intro other mem
    rw [nextId_step fuel read]
    rcases List.mem_append.1 mem with mem | mem
    · rw [next]
      exact Nat.le_trans (h.used other mem) made.fresh.le
    · obtain rfl := List.mem_singleton.1 mem
      exact Nat.le_refl _
  · intro other mem resolution resolved id hid
    rw [table]
    rcases List.mem_append.1 mem with mem | mem
    · rw [← h.filed other mem resolution resolved id hid]
      cases hnew : resolve reading.program with
      | error errors => rfl
      | ok later => exact (absorb_of_lt read hnew (h.lt_nextId mem hid)).2
    · obtain rfl := List.mem_singleton.1 mem
      rw [resolved]
      exact absorb_of_mem hscoped read resolution hid
  · intro program mem
    simp only [Course.step, accepted] at mem
    have old : ∀ program ∈ course.past.programs, ∃ other ∈ readings ++ [reading], ∃ resolution,
        other.program = program ∧ resolve program = .ok resolution := by
      intro program mem
      obtain ⟨other, hother, known⟩ := h.programs program mem
      exact ⟨other, List.mem_append_left _ hother, known⟩
    cases resolved : resolve reading.program with
    | error errors =>
      rw [resolved] at mem
      exact old program mem
    | ok resolution =>
      rw [resolved] at mem
      rcases List.mem_cons.1 mem with rfl | mem
      · exact ⟨reading, List.mem_append_right _ (List.mem_singleton_self _), resolution, rfl,
          resolved⟩
      · exact old program mem

/-- **Every command numbers what it reads anew.** -/
theorem step (h : course.Numbered readings) (hscoped : course.Scoped) (command : Command) :
    (course.step command).Numbered (readings ++ (course.reading? command).toList) := by
  cases command with
  | run fuel source =>
    cases hread : course.session.reading? source with
    | some reading =>
      simp only [reading?, hread, Option.toList_some]
      exact h.read hscoped fuel hread
    | none =>
      have accepted := Session.accepted?_of_reading?_none hread
      simp only [reading?, hread, Option.toList_none, List.append_nil]
      refine h.keep ?_ ?_ ?_
      · simp only [Course.step, Session.runWith_of_none fuel accepted]
        exact course.session.le_idAfter source
      · rw [resolution_step, accepted]
      · simp only [Course.step, accepted]
  | takeOutput | readLine | feed =>
    simp only [reading?, Option.toList_none, List.append_nil]
    exact h.keep (Nat.le_refl _) rfl rfl

theorem follow (h : course.Numbered readings) (hscoped : course.Scoped)
    (commands : List Command) :
    (course.follow commands).Numbered (readings ++ course.readings commands) := by
  induction commands generalizing course readings with
  | nil =>
    rw [Course.readings, List.append_nil]
    exact h
  | cons command rest ih =>
    rw [Course.readings, ← List.append_assoc]
    exact ih (h.step hscoped command) (hscoped.step command)

/-- The table has the entries of all that is known. -/
theorem settles (h : course.Numbered readings) {os : List Occurrence} (known : course.past.Knows os)
    {id : Id} (hid : id ∈ Resolution.idsOf os) :
    ∃ reading ∈ readings, reading.Settles course.session.state.resolution id := by
  obtain ⟨o, ho, role⟩ := List.mem_filterMap.1 hid
  obtain ⟨program, hprogram, hmem⟩ := known o ho
  obtain ⟨reading, mem, resolution, rfl, resolved⟩ := h.programs program hprogram
  have inside : id ∈ reading.ids := Occurrence.id_mem_ofProgram hmem role
  exact ⟨reading, mem, resolution, resolved, inside,
    h.filed reading mem resolution resolved id inside⟩

end Course.Numbered

/-- In the course of every session, ids are used once. -/
theorem Course.numbered (input : Input) (room : Option Nat) (clock : Nat)
    (commands : List Command) :
    ((Course.new input room clock).follow commands).Numbered
      ((Course.new input room clock).readings commands) := by
  have start : (Course.new input room clock).Numbered [] := {
    distinct := List.nodup_nil
    within := fun _ mem => by cases mem
    used := fun _ mem => by cases mem
    filed := fun _ mem => by cases mem
    programs := fun _ mem => by cases mem }
  exact start.follow (.new input room clock) commands

/-- The next id never moves back. -/
theorem Course.nextId_le_step (course : Course) (command : Command) :
    course.session.nextId ≤ (course.step command).session.nextId := by
  cases command with
  | run fuel source =>
    have after := course.session.le_idAfter source
    cases accepted : course.session.accepted? source with
    | none =>
      simp only [step, Session.runWith_of_none fuel accepted]
      exact after
    | some found =>
      simp only [step, Session.runWith_of_some fuel accepted, Session.evaluate_snd]
      exact after
  | _ => exact Nat.le_refl _

/-- Every entry in the table of a session is for an id that has been used. -/
theorem Course.Scoped.lt_nextId {course : Course} (h : course.Scoped) {id : Id} {hops : Nat}
    (entry : course.session.state.resolution.binding id = .local hops) :
    id < course.session.nextId := by
  rcases Nat.lt_or_ge id course.session.nextId with lt | le
  · exact lt
  · cases (h.free id le).symm.trans entry

/-! ## 4. The result -/

/-- **Ids never collide.**  Let a session have carried out any commands, and let it carry out one
more.

* All nodes that have been read, this time or before, have different ids, also those of programs
  that have been refused.
* The ids of each program lie in the range that reading it has used up.  The range begins at the
  next id of the session and moves it on, and no command moves it back.
* The table that is added for an accepted program has no entry for an id of an earlier one, and
  adding it changes neither what the table of the session says of such ids nor any entry in it.
* In every state that is met from then on, the bindings of the nodes of all accepted programs are
  those that resolving their own programs has found; so for the nodes of every closure that is kept
  there, and for those in every expression that is evaluated. -/
theorem ids_never_collide (input : Input) (room : Option Nat) (clock : Nat)
    (commands : List Command) (command : Command) :
    let start := Course.new input room clock
    let before := start.follow commands
    let after := before.step command
    let earlier := start.readings commands
    let readings := earlier ++ (before.reading? command).toList
    (readings.flatMap Reading.ids).Nodup ∧
    (∀ reading ∈ readings, ∀ id ∈ reading.ids, reading.firstId ≤ id ∧ id < reading.nextId) ∧
    before.session.nextId ≤ after.session.nextId ∧
    (∀ reading, before.reading? command = some reading →
      reading.firstId = before.session.nextId ∧ reading.nextId = after.session.nextId) ∧
    (∀ reading, before.reading? command = some reading → ∀ resolution,
      resolve reading.program = .ok resolution →
      let table := before.session.state.resolution
      (∀ s, before.Sees command s → s.resolution = table.absorb resolution) ∧
      (∀ old ∈ earlier, ∀ id ∈ old.ids, resolution.binding id = .global ∧
        (table.absorb resolution).binding id = table.binding id) ∧
      ∀ id hops, table.binding id = .local hops →
        (table.absorb resolution).binding id = .local hops) ∧
    ∀ s, before.Sees command s →
      (∀ reading ∈ readings, ∀ resolution, resolve reading.program = .ok resolution →
        ∀ id ∈ reading.ids, s.resolution.binding id = resolution.binding id) ∧
      (∀ closure, s.store.HoldsClosure closure → ∀ id ∈ closure.declaration.ids,
        ∃ reading ∈ readings, reading.Settles s.resolution id) ∧
      ∀ fuel e, before.During command (.begins fuel (.eval e) s) → ∀ id ∈ e.ids,
        ∃ reading ∈ readings, reading.Settles s.resolution id := by
  intro start before after earlier readings
  have hscoped : before.Scoped := Course.scoped input room clock commands
  have hearlier : before.Numbered earlier := Course.numbered input room clock commands
  have hafter : after.Numbered readings := hearlier.step hscoped command
  refine ⟨hafter.distinct, hafter.within, before.nextId_le_step command, ?_, ?_, ?_⟩
  · intro reading read
    cases command with
    | run fuel source =>
      exact ⟨(Session.made_of_reading? read).1, (Course.Numbered.nextId_step fuel read).symm⟩
    | _ => cases read
  · intro reading read resolution resolved table
    cases command with
    | run fuel source =>
      have accepted := Session.accepted?_of_reading? read
      rw [resolved] at accepted
      refine ⟨?_, ?_, ?_⟩
      · intro s sees
        rw [sees.resolution, Course.resolution_step, accepted]
        rfl
      · intro old mem id hid
        exact Course.Numbered.absorb_of_lt read resolved (hearlier.lt_nextId mem hid)
      · intro id hops entry
        rw [(Course.Numbered.absorb_of_lt read resolved (hscoped.lt_nextId entry)).2]
        exact entry
    | _ => cases read
  · intro s sees
    rw [sees.resolution]
    refine ⟨hafter.filed, ?_, ?_⟩
    · intro closure held id hid
      obtain ⟨stack, known⟩ := sees.knows (hscoped.step command) held
      refine hafter.settles known ?_
      rw [Resolution.idsOf_ofFunction]
      exact hid
    · intro fuel e during id hid
      obtain ⟨_, stack, begun⟩ := (hscoped.step command).begun fuel (.eval e) s during.moments
      have ready : s.Ready _ stack (ofExpr stack e) := begun.expects
      refine hafter.settles (ready.known.later begun.before) ?_
      rw [Resolution.idsOf_ofExpr]
      exact hid

/-! ## 5. A session with refused texts -/

namespace Identity

/-- A function with a local variable, and then texts that break off, are refused, and fail. -/
def commands : List Command :=
  [.run 20 "fun f() \x7b var a; return a; \x7d", .run 20 "x +", .run 20 "this;", .run 20 "y;"]

/-- The session behind them. -/
def course : Course := (Course.new ⟨[], true⟩ none 0).follow commands

/-- Whether a value is a function whose nodes have the given ids. -/
def isFunctionWith (ids : List Id) : Value → Bool
  | .callable (.closure closure) => closure.declaration.ids = ids
  | _ => false

end Identity

/-- The id that the text that broke off has drawn is not used again, and when the function is called
afterwards its variable has the binding that resolving the first text has found. -/
theorem function_keeps_its_ids :
    ((Course.new ⟨[], true⟩ none 0).readings Identity.commands).map Reading.ids =
      [[0], [2], [3]] ∧
    ∃ closure, (Identity.course.step (.run 20 "f();")).session.state.store.HoldsClosure closure ∧
      closure.declaration.ids = [0] ∧
      ∃ reading ∈ (Course.new ⟨[], true⟩ none 0).readings Identity.commands ++
          (Identity.course.reading? (.run 20 "f();")).toList,
        reading.Settles (Identity.course.step (.run 20 "f();")).session.state.resolution 0 := by
  refine ⟨by cbv, ?_⟩
  have found : ((Identity.course.step (.run 20 "f();")).session.state.scopes.get? globalScope
      "f").any (Identity.isFunctionWith [0]) = true := by cbv
  obtain ⟨value, bound, isFunction⟩ := (Option.any_eq_true _ _).1 found
  unfold Identity.isFunctionWith at isFunction
  split at isFunction
  · rename_i closure
    have hids : closure.declaration.ids = [0] := by simpa using isFunction
    have held : (Identity.course.step (.run 20 "f();")).session.state.store.HoldsClosure closure :=
      ⟨_, .bound bound, .closure closure⟩
    refine ⟨closure, held, hids, ?_⟩
    obtain ⟨-, -, -, -, -, met⟩ :=
      ids_never_collide ⟨[], true⟩ none 0 Identity.commands (.run 20 "f();")
    refine (met _ .after).2.1 closure held 0 ?_
    rw [hids]
    exact List.mem_singleton_self _
  · cases isFunction

end Lox
