/-
# Texts that are run one after the other, and at once

Two texts that are run one after the other do what they do as one text, with a newline in between
(`running_at_once`).  Only the lines of the second text are counted from where the first one ends:
the run at once is in every respect the run of the first text and then of the second one with as
many empty lines in front of it (`SameRun` with equal lines), and these do nothing but move the
lines of the second text down (`SameRun` with lines so much further down).
-/
import Mathlib
import Lox.Proofs.Scoping.Balance
import Lox.Proofs.Scoping.Return
import Lox.Proofs.Session.Likeness

namespace Lox

/-! ## 1. Texts that are accepted elsewhere -/

/-- An accepted program files hops under its own ids only. -/
theorem Session.binding_of_accepted {session : Session} {source : String} {program : List Stmt}
    {resolution : Resolution}
    (accepted : session.accepted? source = some (program, resolution)) {id : Id}
    (other : id < session.nextId ∨ session.idAfter source ≤ id) :
    resolution.binding id = .global := by
  obtain ⟨stream, scanned, parsed, after, resolved⟩ := accepted?_eq_some accepted
  have made := (parse_made scanned session.nextId).2 program parsed
  refine (Resolution.of_resolve made.good made.fresh.distinct resolved).2 id fun hmem => ?_
  have within := made.fresh.within id hmem
  rcases other with below | above
  · exact absurd within.1 (Nat.not_le.2 below)
  · exact absurd within.2 (Nat.not_lt.2 (after ▸ above))

/-- Whether a text is accepted depends neither on the ids that are free nor on the line on which it
begins. -/
theorem Session.accepts_elsewhere {s : Session} {source source' : String}
    {stream stream' : TokenStream} {k : Nat} (scanned : scan source = .ok stream)
    (scanned' : scan source' = .ok stream')
    (tokens : stream'.tokens = stream.tokens.map (Token.shift k))
    {program : List Stmt} {resolution : Resolution}
    (accepted : s.accepted? source = some (program, resolution)) (s' : Session) :
    ∃ program' resolution', s'.accepted? source' = some (program', resolution') := by
  obtain ⟨_, again, parsed, -, resolved⟩ := accepted?_eq_some accepted
  cases again.symm.trans scanned
  let m : Likeness :=
    ⟨(Likeness.grow (.below 0 Eq) s.nextId (parse stream s.nextId).nextId s'.nextId).ids,
      fun _ _ => True⟩
  have distinct : m.OneToOne := (Likeness.oneToOne_below 0 Eq).grow
    (fun i j used => absurd used.2 (Nat.not_lt_zero i)) _
  obtain ⟨program', parsed', likes⟩ := parse_alike (m := m) tokens (fun _ => trivial) parsed
    fun i least most => .inr ⟨least, most, rfl⟩
  obtain ⟨resolution', resolved', -⟩ := alike_resolve distinct likes resolved
  exact ⟨program', resolution', accepted?_of scanned' (congrArg Parsed.result parsed') resolved'⟩

/-- What a text that runs to its end has done. -/
theorem Session.run_of_finished {s : Session} {fuel : Nat} {source : String} {program : List Stmt}
    {resolution : Resolution} (accepted : s.accepted? source = some (program, resolution))
    (finished : (s.runWith fuel source).1 = .finished) :
    ∃ t, Eval.run fuel program (s.ready resolution) = .ok () t ∧
      (s.runWith fuel source).2 = ⟨t, s.idAfter source⟩ := by
  rw [runWith_of_some fuel accepted] at finished ⊢
  unfold evaluate at finished ⊢
  unfold ready
  dsimp only at finished ⊢
  cases ran : Eval.run fuel program
      { s.state with resolution := s.state.resolution.absorb resolution } with
  | ok _ t => exact ⟨t, rfl, rfl⟩
  | error interrupt t =>
    rw [ran] at finished
    cases interrupt <;> cases finished

/-! ## 2. Two runs and one -/

/-- Runs of one kind of end that print the same text, leave the same globals, and use up as many
ids.  What line numbers there are, in values and in errors, may differ as the relation says. -/
structure SameRun (lines : Nat → Nat → Prop) (a b : Outcome × Session) : Prop where
  outcome : a.1.Alike (.below a.2.nextId lines) b.1
  printed : a.2.state.output = b.2.state.output
  globals : ∀ name, Option.Rel (Value.Alike (.below a.2.nextId lines))
    (a.2.state.scopes.get? globalScope name) (b.2.state.scopes.get? globalScope name)
  state : a.2.state.Alike (.below a.2.nextId lines) b.2.state
  nextId : a.2.nextId = b.2.nextId

/-- Runs whose ends are alike are the same. -/
theorem SameRun.of_ends {lines : Nat → Nat → Prop} {fuel : Nat} {s s' : Session}
    {program program' : List Stmt} {r r' : Resolution} (nextId : s.nextId = s'.nextId)
    (ends : EndAlike (.below s.nextId lines) (· = ·) (Eval.run fuel program (s.ready r))
      (Eval.run fuel program' (s'.ready r'))) :
    SameRun lines (s.evaluate fuel program r) (s'.evaluate fuel program' r') := by
  obtain ⟨outcome, state⟩ := Session.alike_evaluate ends
  have used : (s.evaluate fuel program r).2.nextId = s.nextId := by rw [Session.evaluate_snd]
  have used' : (s'.evaluate fuel program' r').2.nextId = s'.nextId := by rw [Session.evaluate_snd]
  rw [← used] at outcome state
  exact ⟨outcome, state.output, state.scopes.get? globalScope, state,
    used.trans (nextId.trans used'.symm)⟩

section Joined

variable {s : Session} (self : s.SelfAlike) {fuel : Nat} {first : String} {program : List Stmt}
  {r both : Resolution} (accepted : s.accepted? first = some (program, r)) {t : State}
  (ran : Eval.run fuel program (s.ready r) = .ok () t)

include self accepted ran

/-- A program runs the same if hops of a later program have already been filed. -/
theorem Session.run_beforehand
    (same : ∀ id < s.idAfter first, both.binding id = r.binding id) :
    ∃ t', Eval.run fuel program (s.ready both) = .ok () t' ∧
      t.Alike (.below (s.idAfter first) Eq) t' := by
  have resolutions : (s.state.resolution.absorb r).Alike (.below (s.idAfter first) Eq)
      (s.state.resolution.absorb both) := by
    rintro i _ ⟨rfl, most⟩
    rw [Resolution.binding_absorb, Resolution.binding_absorb, same i most]
  have ready : (s.ready r).Alike (.below (s.idAfter first) Eq) (s.ready both) :=
    self.extend (Likeness.below_le (s.le_idAfter first) fun _ _ eq => eq) resolutions
  have ends := Eval.alike_run fuel (self.ready accepted).1 _ _ ready
  rw [ran] at ends
  generalize Eval.run fuel program (s.ready both) = joined at ends
  cases ends with
  | ok _ state => exact ⟨_, rfl, state⟩

/-- **A second program runs behind the first one as it does when it is run later**, if its
resolution is then added. -/
theorem SameRun.of_append {lines : Nat → Nat → Prop} (eq : ∀ l, lines l l) {hi : Id}
    (le : s.idAfter first ≤ hi) {second second' : List Stmt} {later later' : Resolution}
    (likes : Stmt.AlikeAll (.below hi lines) second second')
    (alike : later.Alike (.below hi lines) later')
    (free : ∀ id < s.idAfter first, later'.binding id = .global)
    (joined : ∀ id, both.binding id = (r.absorb later').binding id) :
    SameRun lines (Session.evaluate fuel ⟨t, hi⟩ second later)
      (Session.evaluate fuel ⟨s.state, hi⟩ (program ++ second') both) := by
  obtain ⟨t', ran', like⟩ := Session.run_beforehand self accepted ran fun id below => by
    rw [joined, Resolution.binding_absorb, free id below]
  have kept : t.resolution = s.state.resolution.absorb r := by
    have keeps := (Eval.keeps_run fuel program (s.ready r)).resolution
    rwa [ran] at keeps
  have kept' : t'.resolution = s.state.resolution.absorb both := by
    have keeps := (Eval.keeps_run fuel program (s.ready both)).resolution
    rwa [ran'] at keeps
  have resolutions : (t.resolution.absorb later).Alike (.below hi lines) t'.resolution := by
    rintro i _ ⟨rfl, most⟩
    rw [kept, kept']
    simp only [Resolution.binding_absorb, joined, alike i i ⟨rfl, most⟩]
    cases later'.binding i <;> rfl
  have ready : (Session.ready ⟨t, hi⟩ later).Alike (.below hi lines) t' :=
    like.extend (Likeness.below_le le fun l _ same => same ▸ eq l) resolutions
  obtain ⟨-, -, -, -, resolved⟩ := Session.accepted?_eq_some accepted
  refine .of_ends rfl ?_
  have runs : Eval.run fuel (program ++ second') (Session.ready ⟨s.state, hi⟩ both) =
      Eval.run fuel second' t' := by
    rw [Eval.run_append fuel (returnFree_of_resolve resolved) second']
    exact Eval.bind_of_ok ran' _
  rw [runs]
  exact Eval.alike_run fuel likes _ _ ready

end Joined

/-! ## 3. Texts -/

section Texts

variable {s later : Session} {first second : String} {program program' : List Stmt}
  {r r' : Resolution}

/-- What has been read ends where the free ids begin. -/
theorem Session.parse_of_accepted (accepted : s.accepted? first = some (program, r))
    {stream : TokenStream} (scanned : scan first = .ok stream) :
    parse stream s.nextId = ⟨.ok program, s.idAfter first⟩ ∧ resolve program = .ok r := by
  obtain ⟨_, again, parsed, after, resolved⟩ := accepted?_eq_some accepted
  cases again.symm.trans scanned
  rw [← parsed, after]
  exact ⟨rfl, resolved⟩

/-- A text with empty lines in front of it is the same, but further down. -/
theorem Session.accepts_blankLines (accepted : s.accepted? second = some (program, r)) (k : Nat)
    (accepted' : s.accepted? (blankLines k ++ second) = some (program', r')) :
    s.idAfter second = s.idAfter (blankLines k ++ second) ∧
      Stmt.AlikeAll (.below (s.idAfter second) fun l l' => l' = l ∨ l' = l + k) program program' ∧
      r.Alike (.below (s.idAfter second) fun l l' => l' = l ∨ l' = l + k) r' := by
  obtain ⟨stream, scanned, -, -, -⟩ := accepted?_eq_some accepted
  obtain ⟨parsed, resolved⟩ := parse_of_accepted accepted scanned
  obtain ⟨parsed', resolved'⟩ := parse_of_accepted accepted' (scan_blankLines scanned k)
  let m := Likeness.below (s.idAfter second) fun l l' => l' = l ∨ l' = l + k
  have ids : ∀ i, s.nextId ≤ i → i < (parse stream s.nextId).nextId →
      m.ids i (i - s.nextId + s.nextId) := by
    rw [parsed]
    exact fun i least most => ⟨(Nat.sub_add_cancel least).symm, most⟩
  have tokens : (TokenStream.mk (stream.tokens.map (Token.shift k)) (stream.lastLine + k)).tokens =
    stream.tokens.map (Token.shift k) := rfl
  obtain ⟨found, again, likes⟩ :=
    parse_alike (m := m) tokens (fun _ => .inr rfl) (congrArg Parsed.result parsed) ids
  rw [parsed', parsed] at again
  dsimp only at again
  rw [Nat.sub_add_cancel (s.le_idAfter second)] at again
  injection again with program_eq nextId_eq
  cases program_eq
  obtain ⟨resolution, resolved'', alike⟩ :=
    alike_resolve (Likeness.oneToOne_below _ _) likes resolved
  cases resolved'.symm.trans resolved''
  exact ⟨nextId_eq.symm, likes, alike⟩

/-- Two texts that are accepted one after the other are accepted as one text. -/
theorem Session.accepts_joined (follows : later.nextId = s.idAfter first)
    (accepted : s.accepted? first = some (program, r)) {stream : TokenStream}
    (scanned : scan second = .ok stream)
    (accepted' : later.accepted? (blankLines (newlines first + 1) ++ second) =
      some (program', r')) :
    ∃ both, s.accepted? (first ++ "\n" ++ second) = some (program ++ program', both) ∧
      s.idAfter (first ++ "\n" ++ second) =
        later.idAfter (blankLines (newlines first + 1) ++ second) ∧
      ∀ id, both.binding id = (r.absorb r').binding id := by
  obtain ⟨stream₁, scanned₁, -, -, -⟩ := accepted?_eq_some accepted
  have scanned₂ := scan_blankLines scanned (newlines first + 1)
  obtain ⟨parsed, resolved⟩ := parse_of_accepted accepted scanned₁
  obtain ⟨parsed', resolved'⟩ := parse_of_accepted accepted' scanned₂
  obtain ⟨both, resolves, joined⟩ := resolve_append resolved resolved'
  have scans := scan_join scanned₁ scanned
  rw [follows] at parsed'
  let k := newlines first + 1
  have tokens : (TokenStream.mk (stream₁.tokens ++ stream.tokens.map (Token.shift k))
      (stream.lastLine + k)).tokens =
    stream₁.tokens ++ (TokenStream.mk (stream.tokens.map (Token.shift k))
      (stream.lastLine + k)).tokens := rfl
  have parses := parse_append tokens parsed parsed'
  refine ⟨both, accepted?_of scans (congrArg Parsed.result parses) resolves, ?_, fun id => ?_⟩
  · unfold idAfter
    rw [scans]
    exact congrArg Parsed.nextId parses
  · rw [Resolution.binding, Resolution.binding, joined id]

end Texts

/-- A session that some commands have led to. -/
def Session.Reachable (s : Session) : Prop :=
  ∃ input room clock commands, ((Course.new input room clock).follow commands).session = s

theorem Session.Reachable.selfAlike {s : Session} : s.Reachable → s.SelfAlike
  | ⟨input, room, clock, commands, eq⟩ => eq ▸ Course.selfAlike input room clock commands

/-- **Running texts one after the other is running them at once.**  Let two texts be accepted by
any session, and let the first one run to its end.  Then the run of the second one behind it and the
run of both as one text, with a newline in between, print the same, end in the same way, with the
same cause if it is an error, and leave the same globals.  The lines of what stems from the second
text are moved down by the lines of the first one, and no others are: line for line, too, the run at
once is the run of the first text and then of the second one with so many empty lines before it. -/
theorem running_at_once {s : Session} (reachable : s.Reachable) (fuel : Nat)
    {first second : String} (accepted : (s.accepted? first).isSome)
    (accepted' : (s.accepted? second).isSome)
    (finished : (s.runWith fuel first).1 = .finished) :
    let k := newlines first + 1
    let later := (s.runWith fuel first).2
    SameRun (fun l l' => l' = l ∨ l' = l + k) (later.runWith fuel second)
        (s.runWith fuel (first ++ "\n" ++ second)) ∧
      SameRun Eq (later.runWith fuel (blankLines k ++ second))
        (s.runWith fuel (first ++ "\n" ++ second)) := by
  intro k later
  have self := reachable.selfAlike
  obtain ⟨⟨program, r⟩, accepts⟩ := Option.isSome_iff_exists.1 accepted
  obtain ⟨⟨found, hops⟩, accepts'⟩ := Option.isSome_iff_exists.1 accepted'
  obtain ⟨t, ran, left⟩ := Session.run_of_finished accepts finished
  obtain ⟨stream, scanned, -, -, -⟩ := Session.accepted?_eq_some accepts'
  have follows : later.nextId = s.idAfter first := congrArg Session.nextId left
  -- The second text as it is, and with the lines that it has in the joint text.
  obtain ⟨program', r', there⟩ := Session.accepts_elsewhere scanned scanned
    (Token.shift_zero stream.tokens).symm accepts' later
  have below := scan_blankLines scanned k
  obtain ⟨moved, moved', down⟩ := Session.accepts_elsewhere scanned below rfl accepts' later
  obtain ⟨ids, likes, alike⟩ := Session.accepts_blankLines there k down
  obtain ⟨both, joint, joint', joined⟩ := Session.accepts_joined follows accepts scanned down
  have le : s.idAfter first ≤ later.idAfter (blankLines k ++ second) :=
    follows ▸ later.le_idAfter _
  have free : ∀ id < s.idAfter first, moved'.binding id = .global := fun id used =>
    Session.binding_of_accepted down (.inl (follows ▸ used))
  have state : later.state = t := congrArg Session.state left
  rw [Session.runWith_of_some fuel there, Session.runWith_of_some fuel down,
    Session.runWith_of_some fuel joint, joint', state, ids]
  rw [ids] at likes alike
  obtain ⟨_, -, parsed, after, -⟩ := Session.accepted?_eq_some down
  constructor
  · exact .of_append self accepts ran (fun _ => .inl rfl) le likes alike free joined
  · refine .of_append self accepts ran (fun _ => rfl) le ?_ (.below _ _ _) free joined
    exact alike_of_parse (fun _ => rfl) parsed fun i _ most => ⟨rfl, after ▸ most⟩

namespace Joining

/-- A session that has not run anything. -/
def fresh : Session := .new ⟨[], true⟩ none 0

def first : String := "var a = \"one\"; // a comment"

def second : String := "print a;\nnope;"

end Joining

/-- The newline in between ends a comment; the second text prints what the first one has left, and
then fails on the line after it. -/
theorem comment_ends_at_joint :
    Joining.fresh.Reachable ∧ (Joining.fresh.accepted? Joining.first).isSome ∧
      (Joining.fresh.accepted? Joining.second).isSome ∧
      (Joining.fresh.runWith 20 Joining.first).1 = .finished ∧
      let later := (Joining.fresh.runWith 20 Joining.first).2
      let joint := Joining.fresh.runWith 20 (Joining.first ++ "\n" ++ Joining.second)
      SameRun (fun l l' => l' = l ∨ l' = l + 1) (later.runWith 20 Joining.second) joint ∧
        SameRun Eq (later.runWith 20 (blankLines 1 ++ Joining.second)) joint :=
  have reachable : Joining.fresh.Reachable := ⟨⟨[], true⟩, none, 0, [], rfl⟩
  have accepted : (Joining.fresh.accepted? Joining.first).isSome := by cbv
  have accepted' : (Joining.fresh.accepted? Joining.second).isSome := by cbv
  have finished : (Joining.fresh.runWith 20 Joining.first).1 = .finished := by cbv
  ⟨reachable, accepted, accepted', finished,
    running_at_once reachable 20 accepted accepted' finished⟩

end Lox
