/-
# The course of a session

A session carries out commands one after another.  A `Course` is a session together with what has
happened in it: the programs that were accepted, and the moments of their runs.

Texts that are not accepted change nothing but the next id (`Session.runWith_of_none`); the others
are run from the state of the session (`Session.runWith_of_some`).
-/
import Lox.Proofs.Eval.Moment
import Lox.Session

namespace Lox

/-! ## 1. Moments of a program -/

/-- The moments at which the top-level statements of a program begin. -/
inductive Moment.Begins (fuel : Nat) : List Stmt → State → Moment → Prop where
  | here {first : Stmt} {rest : List Stmt} {s : State} :
      Begins fuel (first :: rest) s (.begins fuel (.exec first) s)
  | later {first : Stmt} {rest : List Stmt} {s s' : State} {m : Moment}
      (done : Eval.exec fuel first s = .ok .normal s') (begins : Begins fuel rest s' m) :
      Begins fuel (first :: rest) s m

/-- The moments of the run of a program from a state. -/
def Moment.During (fuel : Nat) (program : List Stmt) (s : State) (m : Moment) : Prop :=
  ∃ first, Begins fuel program s first ∧ first.Reaches m

/-! ## 2. Accepted programs -/

namespace Session

/-- The program of a text and its resolution, if the text has no error. -/
def accepted? (session : Session) (source : String) : Option (List Stmt × Resolution) :=
  match scan source with
  | .error _ => none
  | .ok stream =>
    match (parse stream session.nextId).result with
    | .error _ => none
    | .ok program =>
      match resolve program with
      | .error _ => none
      | .ok resolution => some (program, resolution)

/-- The first id that is free behind a text. -/
def idAfter (session : Session) (source : String) : Id :=
  match scan source with
  | .error _ => session.nextId
  | .ok stream => (parse stream session.nextId).nextId

/-- The state in which a program begins, given its resolution. -/
def ready (session : Session) (resolution : Resolution) : State :=
  { session.state with resolution := session.state.resolution.absorb resolution }

theorem runWith_of_none {session : Session} {source : String} (fuel : Nat)
    (h : session.accepted? source = none) :
    (session.runWith fuel source).2 = ⟨session.state, session.idAfter source⟩ := by
  unfold accepted? at h
  unfold runWith idAfter
  cases hscan : scan source with
  | error errors => rfl
  | ok stream =>
    simp only [hscan] at h ⊢
    cases hparse : (parse stream session.nextId).result with
    | error failure => cases failure <;> rfl
    | ok program =>
      simp only [hparse] at h ⊢
      cases hresolve : resolve program with
      | error errors => rfl
      | ok resolution => simp only [hresolve] at h; cases h

theorem runWith_of_some {session : Session} {source : String} {program : List Stmt}
    {resolution : Resolution} (fuel : Nat)
    (h : session.accepted? source = some (program, resolution)) :
    session.runWith fuel source =
      evaluate fuel ⟨session.state, session.idAfter source⟩ program resolution := by
  unfold accepted? at h
  unfold runWith idAfter
  cases hscan : scan source with
  | error errors => simp only [hscan] at h; cases h
  | ok stream =>
    simp only [hscan] at h ⊢
    cases hparse : (parse stream session.nextId).result with
    | error failure => simp only [hparse] at h; cases h
    | ok program' =>
      simp only [hparse] at h ⊢
      cases hresolve : resolve program' with
      | error errors => simp only [hresolve] at h; cases h
      | ok resolution' =>
        simp only [hresolve, Option.some.injEq, Prod.mk.injEq] at h
        obtain ⟨rfl, rfl⟩ := h
        rfl

end Session

/-- What a text that is accepted has been scanned, read and resolved to. -/
theorem Session.accepted?_eq_some {session : Session} {source : String} {program : List Stmt}
    {resolution : Resolution} (h : session.accepted? source = some (program, resolution)) :
    ∃ stream, scan source = .ok stream ∧ (parse stream session.nextId).result = .ok program ∧
      session.idAfter source = (parse stream session.nextId).nextId ∧
      resolve program = .ok resolution := by
  unfold accepted? at h
  unfold idAfter
  cases hscan : scan source with
  | error errors => simp only [hscan] at h; cases h
  | ok stream =>
    simp only [hscan] at h ⊢
    cases hparse : (parse stream session.nextId).result with
    | error failure => simp only [hparse] at h; cases h
    | ok program' =>
      simp only [hparse] at h
      cases hresolve : resolve program' with
      | error errors => simp only [hresolve] at h; cases h
      | ok resolution' =>
        simp only [hresolve, Option.some.injEq, Prod.mk.injEq] at h
        obtain ⟨rfl, rfl⟩ := h
        exact ⟨stream, rfl, hparse, rfl, hresolve⟩

/-! ## 3. Commands -/

/-- What can be asked of a session. -/
inductive Command where
  | run (fuel : Nat) (source : String)
  | takeOutput
  | readLine
  | feed (bytes : Text.Bytes)

/-- What has happened in a session. -/
structure Past where
  /-- The accepted programs. -/
  programs : List (List Stmt)
  /-- The moments of their runs. -/
  moments : Moment → Prop

namespace Past

/-- Nothing has happened. -/
def empty : Past := ⟨[], fun _ => False⟩

/-- A program is run from a state. -/
def extend (past : Past) (fuel : Nat) (program : List Stmt) (s : State) : Past :=
  ⟨program :: past.programs, fun m => past.moments m ∨ Moment.During fuel program s m⟩

/-- An occurrence of a name in one of the programs. -/
def Occurs (past : Past) (o : Occurrence) : Prop :=
  ∃ program ∈ past.programs, o ∈ Occurrence.ofProgram program

/-- A scope has been made for a construct. -/
def Opened (past : Past) (scope : ScopeId) (origin : ScopeOrigin) : Prop :=
  ∃ s, past.moments (.opens origin s) ∧ scope = s.scopes.all.size

/-- What has happened in one past has happened in another one too. -/
structure Before (past past' : Past) : Prop where
  programs : ∀ program ∈ past.programs, program ∈ past'.programs
  moments : ∀ m, past.moments m → past'.moments m

namespace Before

variable {past past' past'' : Past}

theorem refl (past : Past) : past.Before past := ⟨fun _ h => h, fun _ h => h⟩

theorem trans (h : past.Before past') (h' : past'.Before past'') : past.Before past'' :=
  ⟨fun program hp => h'.programs program (h.programs program hp),
    fun m hm => h'.moments m (h.moments m hm)⟩

theorem extend (past : Past) (fuel : Nat) (program : List Stmt) (s : State) :
    past.Before (past.extend fuel program s) :=
  ⟨fun _ h => List.mem_cons_of_mem _ h, fun _ h => Or.inl h⟩

theorem occurs (h : past.Before past') {o : Occurrence} (ho : past.Occurs o) : past'.Occurs o := by
  obtain ⟨program, hprogram, hmem⟩ := ho
  exact ⟨program, h.programs program hprogram, hmem⟩

theorem opened (h : past.Before past') {scope : ScopeId} {origin : ScopeOrigin}
    (hopened : past.Opened scope origin) : past'.Opened scope origin := by
  obtain ⟨s, hopens, hscope⟩ := hopened
  exact ⟨s, h.moments _ hopens, hscope⟩

end Before

end Past

/-- A session and what has happened in it. -/
structure Course where
  session : Session
  past : Past

namespace Course

/-- A session in which nothing has happened. -/
def new (input : Input) (room : Option Nat) (clock : Nat) : Course :=
  ⟨.new input room clock, .empty⟩

/-- A command is carried out. -/
def step (course : Course) : Command → Course
  | .run fuel source =>
    ⟨(course.session.runWith fuel source).2,
      match course.session.accepted? source with
      | some (program, resolution) =>
        course.past.extend fuel program (course.session.ready resolution)
      | none => course.past⟩
  | .takeOutput => { course with session := course.session.takeOutput.2 }
  | .readLine => { course with session := course.session.readLine.2 }
  | .feed bytes => { course with session := course.session.feed bytes }

/-- Commands are carried out in order. -/
def follow (course : Course) (commands : List Command) : Course := commands.foldl step course

/-- What holds at first and is kept by every command holds in the course of every session. -/
theorem follow_induction {p : Course → Prop}
    (keep : ∀ course command, p course → p (course.step command))
    {course : Course} (h : p course) (commands : List Command) : p (course.follow commands) := by
  induction commands generalizing course with
  | nil => exact h
  | cons command rest ih => exact ih (keep course command h)

end Course

/-- What has happened in a new session after some commands. -/
abbrev Past.after (input : Input) (room : Option Nat) (clock : Nat) (commands : List Command) :
    Past :=
  ((Course.new input room clock).follow commands).past

end Lox
