/-
# The names of local variables do not matter

A text that a session accepts may have other names for its local variables.  With a name that is
nowhere in it, for one variable that it declares in a region, it is accepted again, with the same
resolution; and from any state of a session it prints the same and ends in the same way, save that
an error may speak of the variable by its new name (`renaming_preserves_runs`).

Two runs correspond if they begin in states that do, and for that a session must correspond to
itself (`Course.selfKin`).  It does since the identity is a renaming too: a run corresponds to
itself under it, and what is related under it is the same.
-/
import Lox.Proofs.Eval.Following
import Lox.Proofs.Scoping.Renaming
import Lox.Proofs.Session.Scoped

namespace Lox

variable {ρ ρ' : Renaming} {r r' : Resolution} {w : World} {marks : Marks}

/-! ## 1. States that correspond to themselves -/

/-- A world in which no scope is marked. -/
def World.flat (scopes : Nat) : World := List.replicate scopes []

theorem World.getElem?_flat {scope : ScopeId} (here : w[scope]? = some marks) :
    (flat w.length)[scope]? = some [] := by
  obtain ⟨lt, -⟩ := List.getElem?_eq_some_iff.1 here
  rw [flat, List.getElem?_replicate, if_pos lt]

theorem World.eq_nil_of_flat {scopes : Nat} {scope : ScopeId}
    (here : (flat scopes)[scope]? = some marks) : marks = [] := by
  rw [flat, List.getElem?_replicate] at here
  split at here
  · exact (Option.some.inj here).symm
  · cases here

/-- A state that corresponds to itself, whatever is renamed elsewhere. -/
def State.SelfKin (s : State) : Prop :=
  ∀ (ρ : Renaming) (r : Resolution), State.Kin (ρ.run r (.flat s.scopes.all.size) [])
    { s with resolution := r } { s with resolution := r }

section Same

variable (same : ρ.old = ρ.new)

include same

/-- A closure that is related to another one under the identity is the same closure, and so it is
related to itself where nothing is renamed. -/
theorem Closure.Renamed.flatten (depth : Nat) {c c' : Closure}
    (h : c.Renamed ρ r w (.none depth) c') :
    c.Renamed ρ' r' (.flat w.length) (.none depth) c' := by
  obtain ⟨marks, here, declared⟩ := h.declaration
  refine ⟨h.stamp, h.scope, h.isInitializer, [], World.getElem?_flat here, ?_⟩
  rw [← declared.eq same, List.append_nil]
  exact c.declaration.renamed_self ρ' r' depth

theorem Renaming.flatten : (ρ.kinship r w).Le (ρ'.kinship r' (.flat w.length)) where
  closures _ _ closure := Closure.Renamed.flatten same 0 closure
  methods _ _ closure := Closure.Renamed.flatten same 1 closure

theorem Scopes.Renamed.flatten {s s' : Scopes Value} (h : s.Renamed ρ r w s') :
    s.Renamed ρ' r' (.flat w.length) s' where
  size := by rw [h.size, World.flat, List.length_replicate]
  size' := by rw [h.size', World.flat, List.length_replicate]
  globals := World.getElem?_flat h.globals
  each := by
    intro i marks a a' found left right
    obtain rfl := World.eq_nil_of_flat found
    obtain ⟨lt, -⟩ := Array.getElem?_eq_some_iff.1 left
    have here := List.getElem?_eq_getElem (h.size ▸ lt)
    have scope := h.each i _ a a' here left right
    refine ⟨fun name name' names => ?_, scope.enclosing, fun outer link => ?_⟩
    · cases names
      exact rel_imp (scope.bindings name name (.of_same same _ _)) fun _ _ value =>
        value.mono (Renaming.flatten same)
    · exact World.getElem?_flat (scope.around outer link)

theorem State.Kin.flatten {s : State} (h : s.Kin (ρ.run r w marks) s) : s.SelfKin := by
  intro ρ' r'
  have scopes : s.scopes.Renamed ρ r w s.scopes := h.environment.scopes
  rw [scopes.size]
  exact { h with
    heap := h.heap.mono (Renaming.flatten same)
    environment := ⟨scopes.flatten same, rfl, World.getElem?_flat h.environment.here, rfl, rfl⟩ }

end Same

theorem State.selfKin_initial (input : Input) (room : Option Nat) (clock : Nat) :
    (State.initial input room clock).SelfKin := by
  intro ρ r
  have globals : (Bindings.ofList builtinGlobals).Rel (ρ.values r (.flat 1))
      (.ofList builtinGlobals) := by
    refine .ofList (List.forall₂_same.2 fun pair mem => ⟨rfl, ?_⟩)
    rcases builtin_of_mem_globals mem with ⟨function, builtin⟩ | ⟨kind, builtin⟩ <;> rw [builtin]
    · exact .callable (.builtin function)
    · exact .callable (.class (.builtin kind))
  have scopes : Scopes.Renamed ρ r (.flat 1) ⟨#[⟨.ofList builtinGlobals, none⟩]⟩
      ⟨#[⟨.ofList builtinGlobals, none⟩]⟩ := by
    refine ⟨rfl, rfl, rfl, ?_⟩
    rintro (_ | i) marks a a' found left right
    · cases left
      cases right
      cases found
      refine ⟨fun name name' names => ?_, rfl, fun outer link => by cases link⟩
      cases names
      exact globals.get? name
    · cases found
  exact ⟨⟨scopes, rfl, rfl, rfl, rfl⟩, rfl, .empty, rfl, rfl, rfl, rfl⟩

/-! ## 2. Sessions -/

/-- Outcomes that differ at most in the name of a variable that is not bound. -/
inductive Outcome.Renamed (ρ : Renaming) : Outcome → Outcome → Prop
  | same (outcome : Outcome) : Renamed ρ outcome outcome
  | unbound (line : Nat) :
      Renamed ρ (.failed (.runtimeError ⟨.undefinedVariable ρ.old, line⟩))
        (.failed (.runtimeError ⟨.undefinedVariable ρ.new, line⟩))

/-- Runs that end alike have outcomes and leave states that correspond. -/
theorem Session.renamed_evaluate {fuel : Nat} {s : Session} {program program' : List Stmt}
    {r₀ : Resolution}
    (ends : EndKin (ρ.run r w marks) (· = ·) (Eval.run fuel program (s.ready r₀))
      (Eval.run fuel program' (s.ready r₀))) :
    (s.evaluate fuel program r₀).1.Renamed ρ (s.evaluate fuel program' r₀).1 ∧
      (s.evaluate fuel program r₀).2.state.Kin (ρ.run r w marks)
        (s.evaluate fuel program' r₀).2.state := by
  unfold Session.ready at ends
  unfold Session.evaluate
  dsimp only
  generalize Eval.run fuel program _ = x at ends
  generalize Eval.run fuel program' _ = y at ends
  cases ends with
  | ok _ state => exact ⟨.same _, state⟩
  | error interrupt state =>
    refine ⟨?_, by cases interrupt <;> exact state⟩
    cases interrupt with
    | error causes lines =>
      cases causes with
      | same cause =>
        cases lines
        exact .same _
      | unbound =>
        cases lines
        exact .unbound _
    | starved | outOfFuel | misuse => exact .same _

/-- A program without new names leaves a state that corresponds to itself. -/
theorem State.SelfKin.evaluate {s : Session} (h : s.state.SelfKin) (fuel : Nat)
    (program : List Stmt) (r : Resolution) : (s.evaluate fuel program r).2.state.SelfKin := by
  let ρ : Renaming := ⟨"", ""⟩
  have ordinary : ρ.Ordinary := ⟨⟨by decide, by decide⟩, ⟨by decide, by decide⟩⟩
  let r' := s.state.resolution.absorb r
  have related := Stmt.renamedAll_self ρ r' 0 program
  obtain ⟨w, -, ends⟩ := Eval.follows_run ordinary fuel related _ _ (h ρ r')
  exact State.Kin.flatten (ρ := ρ) rfl (Session.renamed_evaluate ends).2

theorem Course.selfKin_step {course : Course} (h : course.session.state.SelfKin)
    (command : Command) : (course.step command).session.state.SelfKin := by
  cases command with
  | run fuel source =>
    change State.SelfKin (course.session.runWith fuel source).2.state
    cases accepted : course.session.accepted? source with
    | none =>
      rw [Session.runWith_of_none fuel accepted]
      exact h
    | some found =>
      rw [Session.runWith_of_some fuel accepted]
      exact @State.SelfKin.evaluate ⟨course.session.state, course.session.idAfter source⟩ h fuel
        found.1 found.2
  | takeOutput => exact fun ρ r => { h ρ r with output := rfl }
  | readLine => exact fun ρ r => { h ρ r with input := rfl }
  | feed bytes => exact fun ρ r => { h ρ r with input := rfl }

/-- **Every session corresponds to itself.** -/
theorem Course.selfKin (input : Input) (room : Option Nat) (clock : Nat)
    (commands : List Command) :
    ((Course.new input room clock).follow commands).session.state.SelfKin :=
  Course.follow_induction (p := fun course => course.session.state.SelfKin)
    (fun _ command h => Course.selfKin_step h command) (State.selfKin_initial input room clock)
    commands

/-- Beside a session the nodes of a text that it accepts are bound as in the text. -/
theorem Course.Scoped.binding_ready {course : Course} (h : course.Scoped) {source : String}
    {program : List Stmt} {resolution : Resolution}
    (accepted : course.session.accepted? source = some (program, resolution)) {id : Id}
    (mem : id ∈ Stmt.idsAll program) :
    (course.session.ready resolution).resolution.binding id = resolution.binding id := by
  obtain ⟨stream, scanned, parsed, -, -⟩ := Session.accepted?_eq_some accepted
  have made := (parse_made scanned course.session.nextId).2 program parsed
  rw [Session.ready, Resolution.binding_absorb, h.free id (made.fresh.within id mem).1]
  cases resolution.binding id <;> rfl

/-! ## 3. The main result -/

/-- **Renaming a local variable preserves what a program does.**  In any session, let a text be
accepted, and let its program declare a variable in a region: a `var` in a local scope, a parameter
or the variable of a `foreach` loop.  If the declaration and the nodes that the resolver has bound
to it get a name that is nowhere in the program, then the resolver accepts the new program, with the
same resolution.  With any fuel it prints what the text prints, reads as much and looks at the clock
as often, and it has the same outcome, save that an error may call the variable by its new name. -/
theorem renaming_preserves_runs (input : Input) (room : Option Nat) (clock : Nat)
    (commands : List Command) {source : String} {program : List Stmt} {resolution : Resolution}
    (region : Region) (old new : String) :
    let session := ((Course.new input room clock).follow commands).session
    let program' := LocalRenaming.program ⟨⟨old, new⟩, region, resolution⟩ program
    session.accepted? source = some (program, resolution) →
    region.DeclaresVariable program old → Ordinary new →
    (∀ site ∈ Site.ofProgram program, site.Lacks new) →
      resolve program' = .ok resolution ∧
      ∀ fuel, let ran := session.runWith fuel source
        let ran' :=
          Session.evaluate fuel ⟨session.state, session.idAfter source⟩ program' resolution
        ran.1.Renamed ⟨old, new⟩ ran'.1 ∧ ran.2.state.output = ran'.2.state.output ∧
          ran.2.state.input = ran'.2.state.input ∧ ran.2.state.clock = ran'.2.state.clock := by
  intro session program' accepted declared ordinary lacks
  let χ : LocalRenaming := ⟨⟨old, new⟩, region, resolution⟩
  have known := Course.scoped input room clock commands
  obtain ⟨stream, scanned, parsed, -, resolved⟩ := Session.accepted?_eq_some accepted
  have made := (parse_made scanned session.nextId).2 program parsed
  obtain ⟨usual, plain⟩ := LocalRenaming.proper_of_declares (χ := χ) declared made.good
  have both : χ.Ordinary := ⟨usual, ordinary⟩
  have spares := LocalRenaming.spares_of_declares (χ := χ) declared resolved
  refine ⟨LocalRenaming.resolve_program resolved made.fresh.distinct both spares lacks,
    fun fuel => ?_⟩
  have suits : ∀ site ∈ Site.ofProgram program,
      χ.Suits (session.ready resolution).resolution site := by
    refine fun site mem => ⟨(lacks site mem).text, fun id node => ?_⟩
    refine known.binding_ready accepted ?_
    rw [← Site.ids_ofProgram]
    exact List.mem_filterMap.2 ⟨site, mem, node⟩
  have related := LocalRenaming.renamed_program plain suits spares
  have start := Course.selfKin input room clock commands χ.toRenaming
    (session.ready resolution).resolution
  obtain ⟨w, -, ends⟩ := Eval.follows_run both fuel related _ _ start
  intro ran ran'
  have ran_eq : ran = _ := Session.runWith_of_some fuel accepted
  obtain ⟨outcomes, states⟩ :=
    @Session.renamed_evaluate _ _ _ _ fuel ⟨session.state, session.idAfter source⟩ _ _ _ ends
  rw [ran_eq]
  exact ⟨outcomes, states.output, states.input, states.clock⟩

namespace Alpha

/-- A variable that an inner one hides, and that a function keeps. -/
def text : String :=
  "\x7b var a; \x7b var a; a; \x7d fun f(b) \x7b return a; \x7d a = f; print f(nil); \x7d"

/-- What the text says, with a name for the outer variable. -/
def program (name : String) : List Stmt :=
  [.block [.varDecl ⟨name, 1⟩ none,
    .block [.varDecl ⟨"a", 1⟩ none, .expression (.variable ⟨0, ⟨"a", 1⟩⟩)],
    .funDecl ⟨⟨"f", 1⟩, [⟨"b", 1⟩], [.ret 1 (some (.variable ⟨1, ⟨name, 1⟩⟩))]⟩,
    .expression (.assign ⟨4, ⟨name, 1⟩⟩ (.variable ⟨3, ⟨"f", 1⟩⟩)),
    .print 1 (.call (.variable ⟨5, ⟨"f", 1⟩⟩) [.literal .nil] 1)]]

end Alpha

/-- Only the outer variable gets the new name, and the program prints the same. -/
theorem hidden_variable_is_renamed :
    ∃ resolution, (Session.new ⟨[], true⟩ none 0).accepted? Alpha.text =
        some (Alpha.program "a", resolution) ∧
      resolve (Alpha.program "z") = .ok resolution ∧
      ((Session.new ⟨[], true⟩ none 0).runWith 30 Alpha.text).2.state.output =
        (Session.evaluate 30 ⟨.initial ⟨[], true⟩ none 0,
          (Session.new ⟨[], true⟩ none 0).idAfter Alpha.text⟩ (Alpha.program "z")
            resolution).2.state.output := by
  have read : ((Session.new ⟨[], true⟩ none 0).accepted? Alpha.text).map (fun accepted =>
      (accepted.1, LocalRenaming.program ⟨⟨"a", "z"⟩, ⟨.block, [0]⟩, accepted.2⟩ accepted.1)) =
      some (Alpha.program "a", Alpha.program "z") := by cbv
  obtain ⟨⟨program, resolution⟩, accepted, both⟩ := Option.map_eq_some_iff.1 read
  obtain ⟨rfl, renamed⟩ := Prod.mk.inj both
  obtain ⟨resolved, runs⟩ := renaming_preserves_runs ⟨[], true⟩ none 0 []
    ⟨.block, [0]⟩ "a" "z" accepted (by decide) ⟨by decide, by decide⟩ (by decide)
  dsimp only at renamed
  rw [renamed] at resolved runs
  exact ⟨resolution, accepted, resolved, (runs 30).2.1⟩

end Lox
