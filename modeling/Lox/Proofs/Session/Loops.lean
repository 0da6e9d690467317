/-
# Sessions in which bare blocks open no scope

`Bareness.runWith` runs a text as a session does, but with the resolution and the evaluation in
which bare blocks open no scope.  Both sessions keep in step (`Bareness.InStep`), whatever they are
asked for.

With the turns of `for` loops as bare blocks this says that a `for` loop does what is written: its
clauses and its body are resolved in the scope of the loop, and the turns are executed in it
(`for_loops_run_as_written`).
-/
import Lox.Proofs.Eval.Pruning
import Lox.Proofs.Session.Scoped
import Lox.Proofs.Syntax.Derivation

namespace Lox

variable {b : Bareness}

/-! ## 1. Sessions -/

namespace Bareness

/-- Runs a program in a session. -/
def evaluate (b : Bareness) (fuel : Nat) (session : Session) (program : List Stmt) :
    Outcome × Session :=
  match b.runProgram fuel program (session.ready (b.resolution program)) with
  | .ok () state => (.finished, { session with state := state })
  | .error (.error error) state => (.failed (.runtimeError error), { session with state := state })
  | .error .starved state => (.starved, { session with state := state })
  | .error .outOfFuel state => (.stuck, { session with state := state })
  | .error .misuse state => (.stuck, { session with state := state })

/-- Runs a text in a session. -/
def runWith (b : Bareness) (fuel : Nat) (session : Session) (source : String) : Outcome × Session :=
  match scan source with
  | .error errors => (.failed (.scanErrors errors), session)
  | .ok stream =>
    let parsed := parse stream session.nextId
    let session := { session with nextId := parsed.nextId }
    match parsed.result with
    | .error (.errors errors) => (.failed (.syntaxErrors errors), session)
    | .error .outOfFuel => (.stuck, session)
    | .ok program =>
      match resolve program with
      | .error errors => (.failed (.staticErrors errors), session)
      | .ok _ => b.evaluate fuel session program

/-- Carries out a command. -/
def step (b : Bareness) (session : Session) : Command → Session
  | .run fuel source => (b.runWith fuel session source).2
  | .takeOutput => session.takeOutput.2
  | .readLine => session.readLine.2
  | .feed bytes => session.feed bytes

/-- The session after some commands. -/
def after (b : Bareness) (input : Input) (room : Option Nat) (clock : Nat)
    (commands : List Command) : Session :=
  commands.foldl b.step (.new input room clock)

end Bareness

/-! ## 2. Programs -/

namespace Erasure

/-- The footing of top-level code. -/
def ground : Footing := ⟨globalScope, ⟨globalScope, []⟩⟩

/-- The resolutions once a program is known as well, with ids below another bound. -/
def extend (x : Erasure b) (program : List Stmt) (resolution : Resolution) (bound : Id) :
    Erasure b :=
  ⟨x.full.absorb resolution, x.direct.absorb (b.resolution program), bound⟩

/-- No id from the bound on is bound to a local variable. -/
structure Free (x : Erasure b) : Prop where
  full : ∀ id, x.bound ≤ id → x.full.binding id = .global
  direct : ∀ id, x.bound ≤ id → x.direct.binding id = .global

/-- Later programs are bound beside the earlier ones. -/
theorem binding_absorb_of_free {resolution later : Resolution} {id : Id}
    (free : resolution.binding id = .global) :
    (resolution.absorb later).binding id = later.binding id := by
  rw [Resolution.binding_absorb, free]
  cases later.binding id <;> rfl

theorem binding_absorb_of_foreign {resolution later : Resolution} {id : Id}
    (foreign : later.binding id = .global) :
    (resolution.absorb later).binding id = resolution.binding id := by
  rw [Resolution.binding_absorb, foreign]

/-- An occurrence is shifted as what resolving makes of it says. -/
theorem shifts_of_resolves {x : Erasure b} {resolution direct : Resolution} {o o' : Occurrence}
    (h : b.Resolves resolution direct o o')
    (bound : ∀ id, o.role.id? = some id → id < x.bound ∧
      x.full.binding id = resolution.binding id ∧ x.direct.binding id = direct.binding id) :
    x.Shifts o where
  outside := h.outside
  known id node := by
    obtain ⟨lt, full, direct⟩ := bound id node
    refine ⟨lt, ?_⟩
    have same := h.toSame.binding
    unfold Moves
    rw [full, h.filed id node, direct, h.filed' id (h.role ▸ node)]
    generalize o.binding = place at same
    generalize o'.binding = place' at same
    cases same with
    | «local» there declares kept there' =>
      refine ⟨?_, rfl⟩
      rw [Bareness.marks, List.getElem?_map, there]
      exact congrArg some kept
    | global => rfl
  receiver id inner role name found := by
    have node : o.role.id? = some id := by
      rw [role]
      rfl
    -- `this` is found one scope nearer, and so not in the scope of a bare block
    have admissible := h.admissible
    unfold Occurrence.Admissible at admissible
    rw [role] at admissible
    obtain ⟨hops, receiver, superclass⟩ := admissible
    rw [(bound id node).2.1, h.filed id node, Occurrence.binding, name, superclass] at found
    cases found
    obtain ⟨static, -, -, unmarked, -⟩ := h.scopes.locate receiver
    exact unmarked

section Extend

variable {x : Erasure b} (free : x.Free) {program : List Stmt} {hi : Id}
  (made : Made Stmt.idsAll Stmt.GrammaticalAll x.bound hi program) {resolution : Resolution}
  (resolved : resolve program = .ok resolution)

include made resolved

theorem extend_binding {id : Id} (foreign : id ∉ Stmt.idsAll program) :
    (x.extend program resolution hi).full.binding id = x.full.binding id ∧
      (x.extend program resolution hi).direct.binding id = x.direct.binding id :=
  ⟨binding_absorb_of_foreign
      ((Resolution.of_resolve made.good made.fresh.distinct resolved).2 id foreign),
    binding_absorb_of_foreign (Bareness.resolution_of_notMem made.good b foreign)⟩

/-- The earlier programs are bound as before. -/
theorem before_extend : x.Before (x.extend program resolution hi) := by
  have foreign : ∀ id < x.bound, id ∉ Stmt.idsAll program := fun id lt mem =>
    Nat.not_le.2 lt (made.fresh.within id mem).1
  exact ⟨made.fresh.le, fun id lt => (extend_binding made resolved (foreign id lt)).1,
    fun id lt => (extend_binding made resolved (foreign id lt)).2⟩

include free

theorem Free.extend : (x.extend program resolution hi).Free := by
  have later : ∀ id, hi ≤ id → id ∉ Stmt.idsAll program ∧ x.bound ≤ id := fun id le =>
    ⟨fun mem => Nat.not_lt.2 le (made.fresh.within id mem).2, Nat.le_trans made.fresh.le le⟩
  refine ⟨fun id le => ?_, fun id le => ?_⟩ <;> obtain ⟨foreign, le⟩ := later id le
  · exact (extend_binding made resolved foreign).1.trans (free.full id le)
  · exact (extend_binding made resolved foreign).2.trans (free.direct id le)

/-- The two resolutions suit the occurrences in the program. -/
theorem fits_extend : (x.extend program resolution hi).Fits (Occurrence.ofProgram program) := by
  intro o mem
  have pairs := Bareness.resolves made.good made.fresh.distinct b resolved
  rw [List.forall₂_iff_get] at pairs
  obtain ⟨⟨i, lt⟩, rfl⟩ := List.get_of_mem mem
  refine shifts_of_resolves (pairs.2 i lt (pairs.1 ▸ lt)) fun id node => ?_
  obtain ⟨least, most⟩ := made.fresh.within id (Occurrence.id_mem_ofProgram mem node)
  exact ⟨most, binding_absorb_of_free (free.full id least),
    binding_absorb_of_free (free.direct id least)⟩

end Extend

end Erasure

section Later

variable {x x' : Erasure b} (before : x.Before x') {w : Images}

include before

theorem Scopes.Erased.later {scopes scopes' : Scopes Value} (h : scopes.Erased x w scopes') :
    scopes.Erased x' w scopes' :=
  { h with
    binds := fun i image here kept name =>
      rel_imp (h.binds i image here kept name) fun _ _ value =>
        value.mono (Erasure.kinship_later before) }

/-- States stay kin when there are more programs. -/
theorem State.Kin.later {foot : Footing} {s s' : State} (h : s.Kin (x.run w foot) s') :
    State.Kin (x'.run w foot) { s with resolution := x'.full }
      { s' with resolution := x'.direct } :=
  { h with
    heap := h.heap.mono (Erasure.kinship_later before)
    environment := { h.environment with
      scopes := h.environment.scopes.later before
      full := rfl
      direct := rfl } }

end Later

/-! ## 3. Sessions in step -/

/-- Two sessions of which the second one runs its texts with bare blocks that open no scope. -/
structure Bareness.InStep (b : Bareness) (session direct : Session) : Prop where
  nextId : session.nextId = direct.nextId
  kin : ∃ (x : Erasure b) (w : Images), x.bound = session.nextId ∧ x.Free ∧
    session.state.Kin (x.run w Erasure.ground) direct.state

namespace Bareness.InStep

variable {s s' : Session} (h : b.InStep s s')

include h

/-- Ids may be used up. -/
theorem skip {hi : Id} (le : s.nextId ≤ hi) : b.InStep ⟨s.state, hi⟩ ⟨s'.state, hi⟩ := by
  obtain ⟨x, w, bound, free, kin⟩ := h.kin
  let x' : Erasure b := { x with bound := hi }
  have before : x.Before x' := ⟨bound ▸ le, fun _ _ => rfl, fun _ _ => rfl⟩
  have free' : x'.Free :=
    ⟨fun id most => free.full id (Nat.le_trans before.bound most),
      fun id most => free.direct id (Nat.le_trans before.bound most)⟩
  obtain ⟨-, -, -, -, full, direct⟩ := kin.erased
  have kin' := kin.later before
  refine ⟨rfl, x', w, rfl, free', ?_⟩
  rwa [show x'.full = s.state.resolution from full.symm,
    show x'.direct = s'.state.resolution from direct.symm] at kin'

/-- **A program runs alike in both sessions.** -/
theorem evaluate {hi : Id} {program : List Stmt} {resolution : Resolution}
    (made : Made Stmt.idsAll Stmt.GrammaticalAll s.nextId hi program)
    (resolved : resolve program = .ok resolution) (fuel : Nat) :
    (Session.evaluate fuel ⟨s.state, hi⟩ program resolution).1 =
        (b.evaluate fuel ⟨s'.state, hi⟩ program).1 ∧
      b.InStep (Session.evaluate fuel ⟨s.state, hi⟩ program resolution).2
        (b.evaluate fuel ⟨s'.state, hi⟩ program).2 := by
  obtain ⟨x, w, bound, free, kin⟩ := h.kin
  rw [← bound] at made
  obtain ⟨-, -, -, -, full, direct⟩ := kin.erased
  let x' := x.extend program resolution hi
  have start : State.Kin (x'.run w Erasure.ground) (Session.ready ⟨s.state, hi⟩ resolution)
      (Session.ready ⟨s'.state, hi⟩ (b.resolution program)) := by
    unfold Session.ready
    rw [full, direct]
    exact kin.later (Erasure.before_extend made resolved)
  have stands : x'.Stands [] (Occurrence.ofStmts · program) :=
    ⟨[], rfl, Erasure.fits_extend free made resolved⟩
  have follows : x'.Follows w Erasure.ground (fun _ => (· = ·)) (Eval.run fuel program)
      (b.runProgram fuel program) := Erasure.follows_run fuel stands
  obtain ⟨w', -, ends⟩ := follows _ _ start
  have inStep : ∀ {t t' : State}, t.Kin (x'.run w' Erasure.ground) t' →
      b.InStep ⟨t, hi⟩ ⟨t', hi⟩ := fun kin' =>
    ⟨rfl, x', w', rfl, free.extend made resolved, kin'⟩
  unfold Session.ready at ends
  unfold Session.evaluate Bareness.evaluate Session.ready
  dsimp only at ends ⊢
  generalize Eval.run fuel program _ = y at ends
  generalize b.runProgram fuel program _ = z at ends
  cases ends with
  | ok _ state => exact ⟨rfl, inStep state⟩
  | error interrupt state =>
    cases interrupt with
    | error causes lines =>
      cases causes
      cases lines
      exact ⟨rfl, inStep state⟩
    | starved | outOfFuel | misuse => exact ⟨rfl, inStep state⟩

/-- **A text runs alike in both sessions.** -/
theorem runWith (fuel : Nat) (source : String) :
    (s.runWith fuel source).1 = (b.runWith fuel s' source).1 ∧
      b.InStep (s.runWith fuel source).2 (b.runWith fuel s' source).2 := by
  unfold Session.runWith Bareness.runWith
  cases scanned : scan source with
  | error errors => exact ⟨rfl, h⟩
  | ok stream =>
    obtain ⟨le, made⟩ := parse_made scanned s.nextId
    dsimp only
    rw [← h.nextId]
    cases parsed : (parse stream s.nextId).result with
    | error failure => cases failure <;> exact ⟨rfl, h.skip le⟩
    | ok program =>
      dsimp only
      cases resolved : resolve program with
      | error errors => exact ⟨rfl, h.skip le⟩
      | ok resolution => exact h.evaluate (made program parsed) resolved fuel

/-- **Every command keeps the sessions in step.** -/
theorem step {past : Past} (command : Command) :
    b.InStep (Course.step ⟨s, past⟩ command).session (b.step s' command) := by
  obtain ⟨x, w, bound, free, kin⟩ := h.kin
  cases command with
  | run fuel source => exact (h.runWith fuel source).2
  | takeOutput =>
    have output := congrArg (fun output : Output => { output with text := "" }) kin.output
    exact ⟨h.nextId, x, w, bound, free, { kin with output := output }⟩
  | readLine =>
    have input := congrArg (fun input : Input => input.readLine.2) kin.input
    exact ⟨h.nextId, x, w, bound, free, { kin with input := input }⟩
  | feed bytes =>
    have input := congrArg (fun input : Input => (⟨input.pending ++ bytes, bytes.isEmpty⟩ : Input))
      kin.input
    exact ⟨h.nextId, x, w, bound, free, { kin with input := input }⟩

end Bareness.InStep

namespace Bareness

theorem inStep_new (b : Bareness) (input : Input) (room : Option Nat) (clock : Nat) :
    b.InStep (.new input room clock) (.new input room clock) := by
  let x : Erasure b := ⟨.empty, .empty, 0⟩
  let w : Images := [⟨globalScope, []⟩]
  have free : x.Free :=
    ⟨fun id _ => Resolution.binding_empty id, fun id _ => Resolution.binding_empty id⟩
  have globals : (Bindings.ofList builtinGlobals).Rel (x.values w) (.ofList builtinGlobals) := by
    refine .ofList (List.forall₂_same.2 fun pair mem => ⟨rfl, ?_⟩)
    rcases builtin_of_mem_globals mem with ⟨function, builtin⟩ | ⟨kind, builtin⟩ <;> rw [builtin]
    · exact .callable (.builtin function)
    · exact .callable (.class (.builtin kind))
  have only : ∀ {i : ScopeId} {image : Image}, w[i]? = some image →
      i = globalScope ∧ image = ⟨globalScope, []⟩ := by
    rintro (_ | i) image here
    · exact ⟨rfl, (Option.some.inj here).symm⟩
    · cases here
  have scopes : Scopes.Erased x w ⟨#[⟨.ofList builtinGlobals, none⟩]⟩
      ⟨#[⟨.ofList builtinGlobals, none⟩]⟩ := by
    refine ⟨rfl, rfl, fun i image here => ?_, fun i j mark marks here => ?_,
      fun i image here _ name => ?_, fun i i' image image' here here' _ _ _ => ?_⟩
    · obtain ⟨-, rfl⟩ := only here
      exact Nat.zero_lt_one
    · cases (only here).2
    · obtain ⟨rfl, rfl⟩ := only here
      exact globals.get? name
    · rw [(only here).1, (only here').1]
  exact ⟨rfl, x, w, rfl, free, ⟨scopes, rfl, rfl, rfl, rfl, rfl⟩, rfl, .empty, rfl, rfl, rfl, rfl⟩

/-- **Sessions are in step after any commands.** -/
theorem inStep_after (b : Bareness) (input : Input) (room : Option Nat) (clock : Nat)
    (commands : List Command) :
    b.InStep ((Course.new input room clock).follow commands).session
      (b.after input room clock commands) := by
  have follow : ∀ (course : Course) (direct : Session), b.InStep course.session direct →
      b.InStep (course.follow commands).session (commands.foldl b.step direct) := by
    induction commands with
    | nil => exact fun _ _ h => h
    | cons command rest ih => exact fun course direct h => ih _ _ (h.step command)
  exact follow _ _ (b.inStep_new input room clock)

end Bareness

/-! ## 4. The main result -/

/-- A statement declares nothing. -/
theorem Grammar.Statement.declared?_eq {closed : Bool} {a c : Spot} {s : Stmt}
    (h : Grammar.Statement closed a s c) : s.declared? = none := by
  cases h with
  | @forLoop _ _ _ _ _ _ _ _ _ _ _ _ _ _ first _ step =>
    cases first <;> cases step <;> rfl
  | evaluation of =>
    cases of
    rfl
  | _ => rfl

open Bareness (turns)

/-- **`for` loops run as they are written**, in every program and whatever its loops stand in.

* A session that runs its texts with the turns of `for` loops as bare blocks cannot be told from the
  session itself: after any commands all that has been printed and read is the same, and a text has
  the same outcome.
* In a program that is accepted every name is bound to the same declaration in both, though the
  session counts more scopes on the way to it.
* As the body of a loop is a statement, the clauses and the body of the loop are scoped as they are
  written: the condition, the body and the increment stand in the scope of the loop, which holds the
  variable of the initializer and nothing else.  And the loop is run as it is written: the
  initializer once in a fresh scope, and in this one scope, as long as the condition is true, the
  body and behind its normal end the increment.
* A block in which something is declared gets a fresh scope each time it is executed. -/
theorem for_loops_run_as_written :
    (∀ (input : Input) (room : Option Nat) (clock : Nat) (commands : List Command),
      let session := ((Course.new input room clock).follow commands).session
      let written := turns.after input room clock commands
      (∀ fuel source,
        (session.runWith fuel source).1 = (turns.runWith fuel written source).1) ∧
      session.state.output = written.state.output ∧ session.state.input = written.state.input ∧
        session.state.clock = written.state.clock) ∧
    (∀ (session : Session) (source : String) (program : List Stmt) (resolution : Resolution),
      session.accepted? source = some (program, resolution) →
      List.Forall₂
        (fun o o' => turns.Resolves resolution (turns.resolution program) o o' ∧
          turns.SameBinding o o' o.binding o'.binding)
        (Occurrence.ofProgram program) (turns.ofProgram program)) ∧
    (∀ (loop : ForLoop) (closed : Bool) (a c : Spot), Grammar.Statement closed a loop.body c →
      (∀ scopes, turns.ofStmt scopes loop.stmt = loop.occurrences scopes) ∧
      (∀ scopes first name, StaticScope.locate name (loop.scope first :: scopes) =
        if first.declared?.map (·.text) = some name then some (0, true)
        else (StaticScope.locate name scopes).map fun (hops, complete) => (hops + 1, complete)) ∧
      ∀ fuel, turns.run fuel (.exec loop.stmt) = loop.direct turns.run fuel) ∧
    ∀ (body : List Stmt), (∃ s ∈ body, s.declared? ≠ none) →
      ∀ fuel, turns.run (fuel + 1) (.exec (.block body)) =
        Eval.childScope >>= fun scope => Eval.within scope (turns.run fuel (.execAll body)) := by
  refine ⟨fun input room clock commands => ?_, fun session source program resolution accepted => ?_,
    fun loop closed a c body => ?_, fun body declares fuel => ?_⟩
  · have inStep := turns.inStep_after input room clock commands
    obtain ⟨x, w, -, -, kin⟩ := inStep.kin
    exact ⟨fun fuel source => (inStep.runWith fuel source).1, kin.output, kin.input, kin.clock⟩
  · obtain ⟨stream, scanned, parsed, -, resolved⟩ := Session.accepted?_eq_some accepted
    have made := (parse_made scanned session.nextId).2 program parsed
    exact (Bareness.resolves made.good made.fresh.distinct turns resolved).imp
      fun _ _ h => ⟨h, h.toSame.binding⟩
  · have plain := body.declared?_eq
    exact ⟨fun scopes => ForLoop.ofStmt_stmt scopes plain, ForLoop.locate_scope,
      ForLoop.run_stmt plain⟩
  · obtain ⟨s, mem, declared⟩ := declares
    have kept : turns.bare body = false :=
      Bool.eq_false_iff.2 fun bare => declared (turns.declares_nothing bare s mem)
    exact Bareness.run_block_of_not kept

namespace Turns

/-- A loop with all its clauses, and a local variable in its body. -/
def text : String := "for (var a = nil; !a; a = true) \x7b var b; \x7d"

/-- The loop that the text says. -/
def loop : ForLoop where
  initializer := some (.varDecl ⟨"a", 1⟩ (some (.literal .nil)))
  condition := .unary .not 1 (.variable ⟨0, ⟨"a", 1⟩⟩)
  increment := some (.assign ⟨2, ⟨"a", 1⟩⟩ (.literal (.boolean true)))
  body := .block [.varDecl ⟨"b", 1⟩ none]

/-- The tokens of its body. -/
def body : List Token :=
  [⟨.symbol .leftBrace, "\x7b", 1⟩, ⟨.keyword .var, "var", 1⟩, ⟨.identifier, "b", 1⟩,
    ⟨.symbol .semicolon, ";", 1⟩, ⟨.symbol .rightBrace, "\x7d", 1⟩]

end Turns

/-- In the increment the variable is one scope out, and in the loop as it is written it is in the
innermost scope. -/
theorem increment_finds_loop_variable :
    ∃ resolution, (Session.new ⟨[], true⟩ none 0).accepted? Turns.text =
        some ([Turns.loop.stmt], resolution) ∧
      List.Forall₂
        (fun o o' => turns.Resolves resolution (turns.resolution [Turns.loop.stmt]) o o' ∧
          turns.SameBinding o o' o.binding o'.binding)
        (Occurrence.ofProgram [Turns.loop.stmt]) (turns.ofProgram [Turns.loop.stmt]) ∧
      resolution.binding 2 = .local 1 ∧
      (turns.resolution [Turns.loop.stmt]).binding 2 = .local 0 ∧
      turns.ofStmt [] Turns.loop.stmt = Turns.loop.occurrences [] ∧
      (∀ fuel, turns.run fuel (.exec Turns.loop.stmt) = Turns.loop.direct turns.run fuel) ∧
      ∀ fuel, turns.run (fuel + 1) (.exec Turns.loop.body) = Eval.childScope >>= fun scope =>
        Eval.within scope (turns.run fuel (.execAll [.varDecl ⟨"b", 1⟩ none])) := by
  obtain ⟨-, programs, loops, blocks⟩ := for_loops_run_as_written
  have read : ((Session.new ⟨[], true⟩ none 0).accepted? Turns.text).map (fun accepted =>
      (accepted.1, accepted.2.binding 2)) = some ([Turns.loop.stmt], .local 1) := by cbv
  obtain ⟨⟨program, resolution⟩, accepted, both⟩ := Option.map_eq_some_iff.1 read
  obtain ⟨rfl, bound⟩ := Prod.mk.inj both
  have body : Grammar.Statement true ⟨Turns.body, 3⟩ Turns.loop.body ⟨[], 3⟩ :=
    .block (.mk .mk (.more (.varDecl (.mk .mk .mk .none .mk)) .none) .mk)
  obtain ⟨scoping, -, run⟩ := loops Turns.loop _ _ _ body
  refine ⟨resolution, accepted, programs _ _ _ _ accepted, bound, by cbv, scoping [], run,
    blocks _ ⟨_, List.mem_singleton_self _, by simp [Stmt.declared?]⟩⟩

end Lox
