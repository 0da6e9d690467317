/-
# Sessions that are alike

Every session is like itself (`Course.selfAlike`): programs that are alike run alike, and a program
that has been read is like itself.  A text that one session accepts is accepted by every session
that is like it (`Session.Alike.accepts`), and its run leaves sessions that are alike again, with
the ids of the program in addition (`Session.Alike.run`).
-/
import Lox.Proofs.Eval.Simulation
import Lox.Proofs.Session.Scoped
import Lox.Proofs.Syntax.Joining

namespace Lox

variable {m m' : Likeness}

/-! ## 1. Runs of programs

Two programs that are alike, run in states that are. -/

/-- A likeness that allows more keeps states alike, if what else it allows is bound alike. -/
theorem State.Alike.extend {s s' : State} (h : s.Alike m s') (le : m.Le m') {r r' : Resolution}
    (resolution : r.Alike m' r') :
    State.Alike m' { s with resolution := r } { s' with resolution := r' } where
  scopes := h.scopes.imp fun _ _ value => value.mono le
  scope := h.scope
  depth := h.depth
  heap := h.heap.mono le
  stamp := h.stamp
  resolution := resolution
  output := h.output
  input := h.input
  clock := h.clock

/-- Outcomes of one kind: an error has the same cause. -/
inductive Outcome.Alike (m : Likeness) : Outcome → Outcome → Prop
  | finished : Alike m .finished .finished
  | failed (cause : RuntimeCause) {line line' : Nat} (lines : m.lines line line') :
      Alike m (.failed (.runtimeError ⟨cause, line⟩)) (.failed (.runtimeError ⟨cause, line'⟩))
  | starved : Alike m .starved .starved
  | stuck : Alike m .stuck .stuck

/-- Outcomes that show the same lines are the same. -/
theorem Outcome.Alike.eq (same : ∀ l l', m.lines l l' → l = l') {outcome outcome' : Outcome} :
    outcome.Alike m outcome' → outcome = outcome'
  | .finished => rfl
  | .failed cause lines => by rw [same _ _ lines]
  | .starved => rfl
  | .stuck => rfl

/-- Runs that end alike have outcomes and leave states that are alike. -/
theorem Session.alike_evaluate {fuel : Nat} {s s' : Session} {program program' : List Stmt}
    {r r' : Resolution}
    (ends : EndAlike m (· = ·) (Eval.run fuel program (s.ready r))
      (Eval.run fuel program' (s'.ready r'))) :
    (s.evaluate fuel program r).1.Alike m (s'.evaluate fuel program' r').1 ∧
      (s.evaluate fuel program r).2.state.Alike m (s'.evaluate fuel program' r').2.state := by
  unfold Session.ready at ends
  unfold Session.evaluate
  dsimp only
  generalize Eval.run fuel program _ = x at ends
  generalize Eval.run fuel program' _ = y at ends
  cases ends with
  | ok _ state => exact ⟨.finished, state⟩
  | error interrupt state =>
    cases interrupt with
    | error cause lines => exact ⟨.failed cause lines, state⟩
    | starved => exact ⟨.starved, state⟩
    | outOfFuel | misuse => exact ⟨.stuck, state⟩

/-! ## 2. Sessions and themselves

That a session is like itself says that its ids are below the next one. -/

/-- The ids below a bound stand for themselves. -/
def Likeness.below (bound : Id) (lines : Nat → Nat → Prop) : Likeness :=
  ⟨fun i j => i = j ∧ i < bound, lines⟩

/-- More ids are below a larger bound. -/
theorem Likeness.below_le {bound bound' : Id} (h : bound ≤ bound') {lines lines' : Nat → Nat → Prop}
    (hl : ∀ l l', lines l l' → lines' l l') : (below bound lines).Le (below bound' lines') :=
  ⟨fun _ _ same => ⟨same.1, Nat.lt_of_lt_of_le same.2 h⟩, hl⟩

/-- Each id stands for itself. -/
theorem Likeness.oneToOne_below (bound : Id) (lines : Nat → Nat → Prop) :
    (below bound lines).OneToOne := by
  rintro i _ i' _ ⟨rfl, -⟩ ⟨rfl, -⟩
  exact Iff.rfl

/-- A resolution is like itself, as far as its ids go. -/
theorem Resolution.Alike.below (r : Resolution) (bound : Id) (lines : Nat → Nat → Prop) :
    r.Alike (.below bound lines) r := by
  rintro i _ ⟨rfl, -⟩
  rfl

theorem Token.shift_zero (tokens : List Token) : tokens.map (Token.shift 0) = tokens := by
  induction tokens with
  | nil => rfl
  | cons t rest ih => rw [List.map_cons, ih]; rfl

/-- A program that has been read is like itself, if its ids and lines may stand for themselves. -/
theorem alike_of_parse {stream : TokenStream} {lo : Id} {program : List Stmt}
    (lines : ∀ l, m.lines l l) (parsed : (parse stream lo).result = .ok program)
    (ids : ∀ i, lo ≤ i → i < (parse stream lo).nextId → m.ids i i) :
    Stmt.AlikeAll m program program := by
  have same : ∀ i, lo ≤ i → i < (parse stream lo).nextId → m.ids i (i - lo + lo) := by
    intro i least most
    rw [Nat.sub_add_cancel least]
    exact ids i least most
  obtain ⟨program', again, likes⟩ :=
    parse_alike (Token.shift_zero stream.tokens).symm lines parsed same
  rw [again] at parsed
  cases parsed
  exact likes

/-- Sessions begin alike. -/
theorem State.alike_initial (m : Likeness) (input : Input) (room : Option Nat) (clock : Nat) :
    (State.initial input room clock).Alike m (State.initial input room clock) where
  scopes := by
    have globals :
        (Bindings.ofList builtinGlobals).Rel (Value.Alike m) (.ofList builtinGlobals) := by
      refine .ofList (List.forall₂_same.2 fun pair hmem => ⟨rfl, ?_⟩)
      rcases builtin_of_mem_globals hmem with ⟨function, builtin⟩ | ⟨kind, builtin⟩ <;> rw [builtin]
      · exact .callable (.builtin function)
      · exact .callable (.class (.builtin kind))
    exact ArrayRel.ofList (.cons ⟨globals, rfl⟩ .nil)
  scope := rfl
  depth := rfl
  heap := .empty
  stamp := rfl
  resolution _ _ _ := (Resolution.binding_empty _).trans (Resolution.binding_empty _).symm
  output := rfl
  input := rfl
  clock := rfl

/-- A session is like itself: the ids that have been used stand for themselves. -/
def Session.SelfAlike (session : Session) : Prop :=
  session.state.Alike (.below session.nextId Eq) session.state

/-- A program that a session accepts keeps its state like itself. -/
theorem Session.SelfAlike.ready {session : Session} (h : session.SelfAlike) {source : String}
    {program : List Stmt} {resolution : Resolution}
    (accepted : session.accepted? source = some (program, resolution)) :
    Stmt.AlikeAll (.below (session.idAfter source) Eq) program program ∧
      (session.ready resolution).Alike (.below (session.idAfter source) Eq)
        (session.ready resolution) := by
  obtain ⟨stream, -, parsed, after, -⟩ := Session.accepted?_eq_some accepted
  have likes : Stmt.AlikeAll (.below (session.idAfter source) Eq) program program :=
    alike_of_parse (fun _ => rfl) parsed fun _ _ most => ⟨rfl, after ▸ most⟩
  exact ⟨likes, h.extend (Likeness.below_le (session.le_idAfter source) fun _ _ same => same)
    (.below _ _ _)⟩

/-- A command leads from a session that is like itself to another one. -/
theorem Course.selfAlike_step {course : Course} (h : course.session.SelfAlike)
    (command : Command) : (course.step command).session.SelfAlike := by
  cases command with
  | run fuel source =>
    change Session.SelfAlike (course.session.runWith fuel source).2
    cases accepted : course.session.accepted? source with
    | none =>
      rw [Session.runWith_of_none fuel accepted]
      exact h.extend (Likeness.below_le (course.session.le_idAfter source) fun _ _ same => same)
        (.below _ _ _)
    | some found =>
      obtain ⟨likes, ready⟩ := h.ready accepted
      rw [Session.runWith_of_some fuel accepted]
      have ends := (Session.alike_evaluate (Eval.alike_run fuel likes _ _ ready)).2
      rw [Session.evaluate_snd] at ends ⊢
      exact ends
  | takeOutput => exact { h with output := rfl }
  | readLine => exact { h with input := rfl }
  | feed bytes => exact { h with input := rfl }

/-- **Every session is like itself.** -/
theorem Course.selfAlike (input : Input) (room : Option Nat) (clock : Nat)
    (commands : List Command) :
    ((Course.new input room clock).follow commands).session.SelfAlike := by
  have start : (Course.new input room clock).session.SelfAlike :=
    State.alike_initial _ input room clock
  exact Course.follow_induction (p := fun course => course.session.SelfAlike)
    (fun _ command h => Course.selfAlike_step h command) start commands

/-! ## 3. Sessions that use other ids

A text is read with other ids where other texts have been read before it. -/

/-- Sessions whose states are alike.  Only ids that have been used stand for ids. -/
structure Session.Alike (m : Likeness) (s s' : Session) : Prop where
  state : s.state.Alike m s'.state
  used : ∀ i j, m.ids i j → i < s.nextId ∧ j < s'.nextId
  distinct : m.OneToOne

/-- The ids of a program stand for the ids of a program that is read elsewhere, in addition. -/
def Likeness.grow (m : Likeness) (lo hi lo' : Id) : Likeness :=
  ⟨fun i j => m.ids i j ∨ lo ≤ i ∧ i < hi ∧ j = i - lo + lo', m.lines⟩

/-- To add the ids of a program takes none away. -/
theorem Likeness.le_grow (m : Likeness) (lo hi lo' : Id) : m.Le (m.grow lo hi lo') :=
  ⟨fun _ _ h => .inl h, fun _ _ h => h⟩

/-- An id that has been used stands for nothing that has not. -/
theorem eq_iff_of_lt {lo lo' i i' j : Nat} (used : i < lo ∧ j < lo') (least : lo ≤ i') :
    i = i' ↔ j = i' - lo + lo' := by
  omega

theorem eq_iff_of_le {lo lo' i i' : Nat} (least : lo ≤ i) (least' : lo ≤ i') :
    i = i' ↔ i - lo + lo' = i' - lo + lo' := by
  omega

/-- The new ids are above all that have been used, so no id stands for two. -/
theorem Likeness.OneToOne.grow {lo lo' : Id} (h : m.OneToOne)
    (used : ∀ i j, m.ids i j → i < lo ∧ j < lo') (hi : Id) : (m.grow lo hi lo').OneToOne := by
  rintro i j i' j' (old | ⟨least, -, rfl⟩) (old' | ⟨least', -, rfl⟩)
  · exact h _ _ _ _ old old'
  · exact eq_iff_of_lt (used _ _ old) least'
  · rw [eq_comm, @eq_comm _ _ j']
    exact eq_iff_of_lt (used _ _ old') least
  · exact eq_iff_of_le least least'

/-- A text is accepted once it has been scanned, read and resolved. -/
theorem Session.accepted?_of {session : Session} {source : String} {stream : TokenStream}
    {program : List Stmt} {resolution : Resolution} (scanned : scan source = .ok stream)
    (parsed : (parse stream session.nextId).result = .ok program)
    (resolved : resolve program = .ok resolution) :
    session.accepted? source = some (program, resolution) := by
  unfold accepted?
  simp only [scanned, parsed, resolved]

section Pair

variable {course course' : Course} (h : course.session.Alike m course'.session)

include h

/-- What one session accepts every session does that is like it. -/
theorem Session.Alike.accepts (known : course.Scoped) (known' : course'.Scoped)
    (lines : ∀ l, m.lines l l) {source : String} {program : List Stmt} {resolution : Resolution}
    (accepted : course.session.accepted? source = some (program, resolution)) :
    ∃ m' program' resolution', m'.lines = m.lines ∧
      course'.session.accepted? source = some (program', resolution') ∧
      Stmt.AlikeAll m' program program' ∧
      (course.session.ready resolution).Alike m' (course'.session.ready resolution') ∧
      (∀ i j, m'.ids i j →
        i < course.session.idAfter source ∧ j < course'.session.idAfter source) ∧
      m'.OneToOne := by
  obtain ⟨stream, scanned, parsed, after, resolved⟩ := Session.accepted?_eq_some accepted
  let lo := course.session.nextId
  let lo' := course'.session.nextId
  let hi := (parse stream lo).nextId
  let m' := m.grow lo hi lo'
  have distinct : m'.OneToOne := h.distinct.grow h.used hi
  obtain ⟨program', parsed', likes⟩ := parse_alike (m := m') (k := 0)
    (Token.shift_zero stream.tokens).symm lines parsed fun i least most => .inr ⟨least, most, rfl⟩
  obtain ⟨resolution', resolved', alike⟩ := alike_resolve distinct likes resolved
  have accepted' : course'.session.accepted? source = some (program', resolution') :=
    Session.accepted?_of scanned (congrArg Parsed.result parsed') resolved'
  have old : course.session.state.resolution.Alike m' course'.session.state.resolution := by
    rintro i j (used | ⟨least, -, rfl⟩)
    · exact h.state.resolution i j used
    · rw [known.free i least, known'.free _ (Nat.le_add_left _ _)]
  refine ⟨m', program', resolution', rfl, accepted', likes,
    h.state.extend (m.le_grow lo hi lo') (old.absorb alike), ?_, distinct⟩
  have after' : course'.session.idAfter source = hi - lo + lo' := by
    unfold Session.idAfter
    rw [scanned]
    exact congrArg Parsed.nextId parsed'
  rw [after']
  rintro i j (used | ⟨least, most, rfl⟩)
  · obtain ⟨below, below'⟩ := h.used i j used
    exact ⟨Nat.lt_of_lt_of_le below (course.session.le_idAfter source),
      Nat.lt_of_lt_of_le below' (Nat.le_add_left _ _)⟩
  · exact ⟨after ▸ most, Nat.add_lt_add_right (Nat.sub_lt_sub_right least most) lo'⟩

/-- A text that is accepted ends alike in sessions that are alike, and leaves them alike. -/
theorem Session.Alike.run (known : course.Scoped) (known' : course'.Scoped)
    (lines : ∀ l, m.lines l l) (fuel : Nat) {source : String}
    {accepted : List Stmt × Resolution}
    (accepts : course.session.accepted? source = some accepted) :
    ∃ m', m'.lines = m.lines ∧
      (course.session.runWith fuel source).1.Alike m' (course'.session.runWith fuel source).1 ∧
      (course.session.runWith fuel source).2.Alike m' (course'.session.runWith fuel source).2 := by
  obtain ⟨m', program', resolution', same, accepts', likes, ready, used, distinct⟩ :=
    h.accepts known known' lines accepts
  rw [Session.runWith_of_some fuel accepts, Session.runWith_of_some fuel accepts']
  obtain ⟨outcomes, states⟩ := @Session.alike_evaluate m' fuel
    ⟨course.session.state, course.session.idAfter source⟩
    ⟨course'.session.state, course'.session.idAfter source⟩ _ _ _ _
    (Eval.alike_run fuel likes _ _ ready)
  refine ⟨m', same, outcomes, states, ?_, distinct⟩
  rw [Session.evaluate_snd, Session.evaluate_snd]
  exact used

/-- A text that one session refuses leaves it like the other one. -/
theorem Session.Alike.refuse (fuel : Nat) {source : String}
    (refuses : course.session.accepted? source = none) :
    (course.session.runWith fuel source).2.Alike m course'.session := by
  rw [Session.runWith_of_none fuel refuses]
  refine ⟨h.state, fun i j used => ?_, h.distinct⟩
  exact ⟨Nat.lt_of_lt_of_le (h.used i j used).1 (course.session.le_idAfter source),
    (h.used i j used).2⟩

end Pair

/-- What has been printed is the same in sessions that are alike, and can be taken out of both. -/
theorem Session.Alike.takeOutput {s s' : Session} (h : s.Alike m s') :
    s.takeOutput.1 = s'.takeOutput.1 ∧ s.takeOutput.2.Alike m s'.takeOutput.2 := by
  have same := h.state.output
  refine ⟨congrArg Output.text same, ?_, h.used, h.distinct⟩
  exact { h.state with output := congrArg (fun output : Output => { output with text := "" }) same }

end Lox
