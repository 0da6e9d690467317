/-
# Resolving files what the text shows

The walk of `resolve` keeps a stack of local scopes, and `Occurrence.ofProgram` spells out the
stack at each place.  `Walks` says of a step of the walk how it changes the stack, and that, if
there is no static error, it files the occurrences in the part that it walks over and finds them
admissible.

* §1 is what names a stack declares, and where.
* §2 is `Walks`, with one lemma for each step.
* §3 goes through expressions and statements, one case for each construct.
* §4 reads the resolution back: `Resolution.of_resolve` is the result for a whole program.
-/
import Lox.Proofs.Scoping.Occurrence

namespace Lox

open StaticScope

/-! ## 1. Stacks of scopes

The walk keeps the names with a flag that says whether the declaration is complete.  `Occurrence`
keeps the same together with where the scope comes from, and `namesOf` forgets that. -/

/-- A name that is entered twice has its last value, and stands at its first place. -/
theorem Bindings.insert_insert {α : Type} (bindings : Bindings α) (name : String) (first last : α) :
    (bindings.insert name first).insert name last = bindings.insert name last := by
  suffices h : ∀ entries : List (String × α),
      put name last (put name first entries) = put name last entries by
    simp only [insert, h]
  intro entries
  induction entries with
  | nil => simp [put]
  | cons entry rest ih =>
    obtain ⟨bound, value⟩ := entry
    by_cases hb : bound = name <;> simp [put, hb, ih]

theorem Bindings.contains_insert {α : Type} (bindings : Bindings α) (name other : String)
    (value : α) :
    (bindings.insert name value).contains other =
      (decide (name = other) || bindings.contains other) := by
  simp only [contains, get?_insert]
  split <;> simp [*]

namespace StaticScope

/-- The names that the scopes of a stack declare. -/
abbrev namesOf (scopes : List StaticScope) : List LocalScope := scopes.map names

/-- Enters a name in the innermost scope of a stack of names. -/
def enter (name : String) (ready : Bool) : List LocalScope → List LocalScope
  | [] => []
  | scope :: outer => scope.insert name ready :: outer

/-- Declaring a name in the innermost scope, as the walk keeps it and as the text shows it. -/
theorem namesOf_bindName (name : String) (complete : Bool) (scopes : List StaticScope) :
    namesOf (bindName name complete scopes) = enter name complete (namesOf scopes) := by
  cases scopes <;> rfl

theorem enter_enter (name : String) (first last : Bool) (scopes : List LocalScope) :
    enter name last (enter name first scopes) = enter name last scopes := by
  cases scopes with
  | nil => rfl
  | cons scope outer => simp only [enter, Bindings.insert_insert]

/-- A declaration that is completed leaves no trace of the time when it was not. -/
theorem bindName_bindName (name : String) (first last : Bool) (scopes : List StaticScope) :
    bindName name last (bindName name first scopes) = bindName name last scopes := by
  cases scopes with
  | nil => rfl
  | cons scope outer => simp only [bindName, Bindings.insert_insert]

/-- The walk counts the scopes up to a name as the text does. -/
theorem hops?_namesOf (name : String) (scopes : List StaticScope) :
    Resolve.hops? name (namesOf scopes) = (locate name scopes).map Prod.fst := by
  induction scopes with
  | nil => rfl
  | cons scope outer ih =>
    simp only [namesOf, List.map_cons, Resolve.hops?, locate, Bindings.contains]
    rw [← namesOf, ih]
    rcases Option.eq_none_or_eq_some (scope.names.get? name) with h | ⟨complete, h⟩
    · simp [h, Function.comp_def]
    · simp [h]

/-- Whether a declaration is complete does not matter to where its name is found. -/
theorem hops?_enter (name other : String) (first last : Bool) (scopes : List LocalScope) :
    Resolve.hops? name (enter other first scopes) =
      Resolve.hops? name (enter other last scopes) := by
  cases scopes with
  | nil => rfl
  | cons scope outer => simp only [enter, Resolve.hops?, Bindings.contains_insert]

/-- Another name does not come between. -/
theorem locate_bindName {name other : String} (h : other ≠ name) (complete : Bool)
    (scopes : List StaticScope) :
    locate name (bindName other complete scopes) = locate name scopes := by
  cases scopes with
  | nil => rfl
  | cons scope outer => simp only [bindName, locate, Bindings.get?_insert, h, if_false]

theorem locate_fresh (name : String) (origin : ScopeOrigin) (scopes : List StaticScope) :
    locate name (fresh origin :: scopes) =
      (locate name scopes).map fun (hops, complete) => (hops + 1, complete) := rfl

/-- All declarations in a stack are complete. -/
def Complete (scopes : List StaticScope) : Prop :=
  ∀ scope ∈ scopes, ∀ name complete, scope.names.get? name = some complete → complete = true

/-- A declaration that is made and completed at once leaves a complete stack complete. -/
theorem Complete.bindName {scopes : List StaticScope} (h : Complete scopes) (name : String) :
    Complete (bindName name true scopes) := by
  intro scope hscope other complete found
  cases scopes with
  | nil => cases hscope
  | cons first outer =>
    rcases List.mem_cons.1 hscope with rfl | hmem
    · rw [Bindings.get?_insert] at found
      split at found
      · exact (Option.some.inj found).symm
      · exact h first List.mem_cons_self other complete found
    · exact h scope (List.mem_cons_of_mem _ hmem) other complete found

theorem Complete.fresh {scopes : List StaticScope} (h : Complete scopes) (origin : ScopeOrigin) :
    Complete (fresh origin :: scopes) := by
  intro scope hscope other complete found
  rcases List.mem_cons.1 hscope with rfl | hmem
  · cases found
  · exact h scope hmem other complete found

/-- Only the innermost scope can hold a name that is still being declared. -/
theorem Complete.tail_bindName {scopes : List StaticScope} (h : Complete scopes) (name : String)
    (complete : Bool) : Complete (StaticScope.bindName name complete scopes).tail := by
  intro scope hscope
  cases scopes with
  | nil => cases hscope
  | cons first outer => exact h scope (List.mem_cons_of_mem _ hscope)

/-- In a complete stack, whatever is found is ready to be read. -/
theorem Complete.of_locate {name : String} {scopes : List StaticScope} (h : Complete scopes)
    {hops : Nat} {complete : Bool} (found : locate name scopes = some (hops, complete)) :
    complete = true := by
  induction scopes generalizing hops with
  | nil => cases found
  | cons scope outer ih =>
    simp only [locate] at found
    cases hn : scope.names.get? name with
    | some here =>
      simp only [hn, Option.some.injEq, Prod.mk.injEq] at found
      obtain ⟨-, rfl⟩ := found
      exact h scope List.mem_cons_self name _ hn
    | none =>
      simp only [hn, Option.map_eq_some_iff, Prod.mk.injEq] at found
      obtain ⟨⟨outerHops, outerComplete⟩, found, -, rfl⟩ := found
      exact ih (fun scope hs => h scope (List.mem_cons_of_mem _ hs)) found

theorem tail_bindName (name : String) (complete : Bool) (scopes : List StaticScope) :
    (bindName name complete scopes).tail = scopes.tail := by
  cases scopes <;> rfl

theorem tail_bindParams (params : List Name) (scopes : List StaticScope) :
    (bindParams params scopes).tail = scopes.tail := by
  induction params generalizing scopes with
  | nil => rfl
  | cons name rest ih => exact (ih _).trans (tail_bindName _ _ _)

/-- A statement declares names in the innermost scope, if any, so what is below is as it was. -/
theorem tail_after (s : Stmt) (scopes : List StaticScope) :
    (s.after scopes).tail = scopes.tail := by
  unfold Stmt.after
  split
  · exact tail_bindName _ _ _
  · rfl

theorem tail_foldl_after (body : List Stmt) (scopes : List StaticScope) :
    (body.foldl Stmt.after scopes).tail = scopes.tail := by
  induction body generalizing scopes with
  | nil => rfl
  | cons s rest ih => exact (ih _).trans (tail_after s scopes)

theorem Complete.after {scopes : List StaticScope} (h : Complete scopes) (s : Stmt) :
    Complete (s.after scopes) := by
  unfold Stmt.after
  split
  · exact h.bindName _
  · exact h

theorem Complete.bindParams {scopes : List StaticScope} (h : Complete scopes) (params : List Name) :
    Complete (bindParams params scopes) := by
  induction params generalizing scopes with
  | nil => exact h
  | cons name rest ih => exact ih (h.bindName name.text)

theorem Complete.tail {scopes : List StaticScope} (h : Complete scopes) : Complete scopes.tail :=
  fun scope hscope => h scope (List.mem_of_mem_tail hscope)

/-- The scopes of `super` and `this` are entered with their names complete. -/
theorem Complete.methodScopes {scopes : List StaticScope} (h : Complete scopes)
    (superclass : Option Variable) (methods : List FunDecl) :
    Complete (Occurrence.methodScopes scopes superclass methods) := by
  cases superclass with
  | none => exact h
  | some parent =>
    intro scope hscope name complete found
    rcases List.mem_cons.1 hscope with rfl | hmem
    · change (Bindings.empty.insert "super" true).get? name = some complete at found
      rw [Bindings.get?_insert] at found
      split at found
      · exact (Option.some.inj found).symm
      · cases found
    · exact h scope hmem name complete found

theorem Complete.receiver {scopes : List StaticScope} (h : Complete scopes) (method : FunDecl) :
    Complete (receiver method :: scopes) := by
  intro scope hscope name complete found
  rcases List.mem_cons.1 hscope with rfl | hmem
  · change (Bindings.empty.insert "this" true).get? name = some complete at found
    rw [Bindings.get?_insert] at found
    split at found
    · exact (Option.some.inj found).symm
    · cases found
  · exact h scope hmem name complete found

/-- Only the innermost scope can have a declaration that is not complete. -/
theorem of_locate_tail {name : String} {scopes : List StaticScope} (h : Complete scopes.tail)
    {hops : Nat} {complete : Bool} (found : locate name scopes = some (hops, complete)) :
    complete = true ∨ hops = 0 ∧ scopes.head?.bind (·.names.get? name) = some complete := by
  cases scopes with
  | nil => cases found
  | cons scope outer =>
    simp only [locate] at found
    cases hn : scope.names.get? name with
    | some here =>
      simp only [hn, Option.some.injEq, Prod.mk.injEq] at found
      obtain ⟨rfl, rfl⟩ := found
      exact Or.inr ⟨rfl, hn⟩
    | none =>
      simp only [hn, Option.map_eq_some_iff, Prod.mk.injEq] at found
      obtain ⟨⟨outerHops, outerComplete⟩, found, -, rfl⟩ := found
      exact Or.inl (h.of_locate found)

end StaticScope

/-! ## 2. Steps of the walk

`Walks` relates a step to the part of the text that it walks over.  It is closed under sequence, so
a construct is proved from the steps that it consists of. -/

/-- The resolution once an occurrence has been filed. -/
def Resolution.file (resolution : Resolution) (o : Occurrence) : Resolution :=
  match o.role.id?, locate o.name o.scopes with
  | some id, some (hops, _) => resolution.insert id hops
  | _, _ => resolution

namespace Resolve

/-- A step of the walk leads from one stack of names to another, and takes no error back. -/
structure Moves (step : Resolve Unit) (before after : List LocalScope) : Prop where
  scopes : ∀ state, state.scopes = before → (step.run state).2.scopes = after
  errors : ∀ state, state.scopes = before → (step.run state).2.errors = [] → state.errors = []

/-- A change of the state, carried out. -/
theorem run_modify (f : ResolveState → ResolveState) (state : ResolveState) :
    ((modify f : Resolve Unit).run state).2 = f state := rfl

/-- What a step of the walk does between two stacks of names, over a part of a program with the
given occurrences. -/
structure Walks (step : Resolve Unit) (before after : List LocalScope) (os : List Occurrence) :
    Prop extends Moves step before after where
  files : ∀ state, state.scopes = before → (step.run state).2.errors = [] →
    (step.run state).2.resolution = os.foldl Resolution.file state.resolution
  admits : ∀ state, state.scopes = before → (step.run state).2.errors = [] →
    ∀ o ∈ os, o.Admissible

namespace Walks

/-- Doing nothing walks over nothing. -/
theorem nothing (scopes : List LocalScope) : Walks (pure ()) scopes scopes [] where
  scopes _ h := h
  errors _ _ h := h
  files _ _ _ := rfl
  admits _ _ _ _ h := by cases h

/-- Two steps walk over the parts of both, one after the other.  An error of the first is never
taken back by the second. -/
theorem andThen {x y : Resolve Unit} {first middle last : List LocalScope}
    {os os' : List Occurrence} (hx : Walks x first middle os) (hy : Walks y middle last os') :
    Walks (do x; y) first last (os ++ os') where
  scopes state h := hy.scopes _ (hx.scopes state h)
  errors state h ok := hx.errors state h (hy.errors _ (hx.scopes state h) ok)
  files state h ok := by
    have okx := hy.errors _ (hx.scopes state h) ok
    rw [List.foldl_append, ← hx.files state h okx]
    exact hy.files _ (hx.scopes state h) ok
  admits state h ok o ho := by
    rcases List.mem_append.1 ho with ho | ho
    · exact hx.admits state h (hy.errors _ (hx.scopes state h) ok) o ho
    · exact hy.admits _ (hx.scopes state h) ok o ho

/-- A step that files nothing in front of one that does. -/
theorem andThen_nil {x y : Resolve Unit} {first middle last : List LocalScope}
    {os : List Occurrence} (hx : Walks x first middle []) (hy : Walks y middle last os) :
    Walks (do x; y) first last os :=
  hx.andThen hy

/-- A step that files nothing behind one that does. -/
theorem andThen_last {x y : Resolve Unit} {first middle last : List LocalScope}
    {os : List Occurrence} (hx : Walks x first middle os) (hy : Walks y middle last []) :
    Walks (do x; y) first last os := by
  rw [← List.append_nil os]
  exact hx.andThen hy

/-- A step that looks at the scopes first. -/
theorem seeing {view : ResolveState → Resolve Unit} {before after : List LocalScope}
    {os : List Occurrence}
    (h : ∀ state, state.scopes = before → Walks (view state) before after os) :
    Walks (do view (← get)) before after os where
  scopes state hs := (h state hs).scopes state hs
  errors state hs := (h state hs).errors state hs
  files state hs := (h state hs).files state hs
  admits state hs := (h state hs).admits state hs

theorem pushScope (scopes : List LocalScope) :
    Walks pushScope scopes (Bindings.empty :: scopes) [] where
  scopes state h := congrArg (Bindings.empty :: ·) h
  errors _ _ h := h
  files _ _ _ := rfl
  admits _ _ _ _ h := by cases h

theorem popScope (scopes : List LocalScope) : Walks popScope scopes scopes.tail [] where
  scopes state h := congrArg List.tail h
  errors _ _ h := h
  files _ _ _ := rfl
  admits _ _ _ _ h := by cases h

/-- Declaring or completing a name, as a step that changes the stack and files nothing. -/
theorem bind (name : String) (ready : Bool) (scopes : List LocalScope) :
    Walks (Resolve.bind name ready) scopes (enter name ready scopes) [] where
  scopes state h := by
    subst h
    rw [Resolve.bind, run_modify]
    cases h : state.scopes with
    | nil => exact h
    | cons scope outer => rfl
  errors state _ h := by
    rw [Resolve.bind, run_modify] at h
    split at h <;> exact h
  files state _ _ := by
    rw [Resolve.bind, run_modify]
    split <;> rfl
  admits _ _ _ _ h := by cases h

/-- A static error that is recorded on some condition is not there if there is none. -/
theorem reportIf {p : Prop} [Decidable p] (place : Name) (cause : ResolutionCause)
    (scopes : List LocalScope) :
    Walks (if p then report place cause else pure ()) scopes scopes [] where
  scopes state h := by split <;> exact h
  errors state _ h := by
    split at h
    · exact absurd h (List.append_ne_nil_of_right_ne_nil _ (List.cons_ne_nil _ _))
    · exact h
  files state _ _ := by split <;> rfl
  admits _ _ _ _ h := by cases h

/-- A static error on some condition tells that the condition does not hold where there is none. -/
theorem reportIf_admits {p : Prop} [Decidable p] {place : Name} {cause : ResolutionCause}
    {scopes : List LocalScope} {o : Occurrence} (unfiled : o.role.id? = none)
    (admissible : ¬ p → o.Admissible) :
    Walks (if p then report place cause else pure ()) scopes scopes [o] where
  scopes := (reportIf place cause scopes).scopes
  errors := (reportIf place cause scopes).errors
  files state h ok := by
    rw [(reportIf place cause scopes).files state h ok]
    simp only [List.foldl_nil, List.foldl_cons, Resolution.file, unfiled]
  admits state _ ok o' ho := by
    obtain rfl := List.mem_singleton.1 ho
    refine admissible fun hp => ?_
    rw [if_pos hp] at ok
    exact absurd ok (List.append_ne_nil_of_right_ne_nil _ (List.cons_ne_nil _ _))

/-- A declaration is admissible if the innermost scope does not have the name yet. -/
theorem declare {name : Name} (ordinary : Ordinary name.text) (scopes : List StaticScope) :
    Walks (declare name) (namesOf scopes) (enter name.text false (namesOf scopes))
      [.declaring scopes name] := by
  refine seeing fun state hs => andThen_nil (bind _ _ _) (reportIf_admits rfl fun free => ?_)
  refine ⟨ordinary, ?_⟩
  rw [hs] at free
  cases scopes with
  | nil => rfl
  | cons scope outer => simpa [Occurrence.declaring] using free

/-- Completing a declaration is always admissible. -/
theorem define (name : Name) (scopes : List LocalScope) :
    Walks (define name) scopes (enter name.text true scopes) [] :=
  bind _ _ _

/-- Declaring a name and making it ready at once. -/
theorem declare_define {name : Name} (ordinary : Ordinary name.text) {scopes : List StaticScope}
    {y : Resolve Unit} {after : List LocalScope} {os : List Occurrence}
    (h : Walks y (namesOf (bindName name.text true scopes)) after os) :
    Walks (do Resolve.declare name; Resolve.define name; y) (namesOf scopes) after
      (.declaring scopes name :: os) := by
  rw [namesOf_bindName, ← enter_enter name.text false] at h
  exact (declare ordinary scopes).andThen (andThen_nil (define name _) h)

/-- Where a static error is recorded, nothing is said of the occurrences. -/
theorem report (place : Name) (cause : ResolutionCause) (scopes : List LocalScope)
    (os : List Occurrence) : Walks (report place cause) scopes scopes os where
  scopes _ h := h
  errors _ _ ok := absurd ok (List.append_ne_nil_of_right_ne_nil _ (List.cons_ne_nil _ _))
  files _ _ ok := absurd ok (List.append_ne_nil_of_right_ne_nil _ (List.cons_ne_nil _ _))
  admits _ _ ok := absurd ok (List.append_ne_nil_of_right_ne_nil _ (List.cons_ne_nil _ _))

/-- A step behind a check. -/
theorem guarded {p : Prop} [Decidable p] {place : Name} {cause : ResolutionCause} {y : Resolve Unit}
    {before after : List LocalScope} {os : List Occurrence} (moves : Moves y before after)
    (h : ¬ p → Walks y before after os) :
    Walks (if p then (do Resolve.report place cause; y) else y) before after os := by
  split
  · have failed : ∀ state, state.scopes = before →
        ((do Resolve.report place cause; y : Resolve Unit).run state).2.errors ≠ [] := by
      intro state hs ok
      have reported := moves.errors ((Resolve.report place cause).run state).2 hs ok
      exact absurd reported (List.append_ne_nil_of_right_ne_nil _ (List.cons_ne_nil _ _))
    exact {
      scopes := fun state hs => moves.scopes ((Resolve.report place cause).run state).2 hs
      errors := fun state hs ok => absurd ok (failed state hs)
      files := fun state hs ok => absurd ok (failed state hs)
      admits := fun state hs ok => absurd ok (failed state hs) }
  · exact h ‹_›

/-- Filing a node leaves the stack alone. -/
theorem moves_file (id : Id) (name : String) (scopes : List LocalScope) :
    Moves (Resolve.file id name) scopes scopes where
  scopes state h := by
    rw [Resolve.file, run_modify]
    split <;> exact h
  errors state _ h := by
    rw [Resolve.file, run_modify] at h
    split at h <;> exact h

/-- Filing an occurrence whose name is found where its static scopes say. -/
theorem file {id : Id} {o : Occurrence} (hid : o.role.id? = some id) {scopes : List LocalScope}
    (found : hops? o.name scopes = (locate o.name o.scopes).map Prod.fst)
    (admissible : o.Admissible) : Walks (Resolve.file id o.name) scopes scopes [o] where
  toMoves := moves_file id o.name scopes
  files state h _ := by
    rw [Resolve.file, run_modify]
    rw [h, found]
    simp only [List.foldl_cons, List.foldl_nil, Resolution.file, hid]
    cases locate o.name o.scopes <;> rfl
  admits _ _ _ o' ho := by
    obtain rfl := List.mem_singleton.1 ho
    exact admissible

/-- A variable that is read is filed at the innermost scope that declares it, and is admissible
unless that scope is still declaring it. -/
theorem readVariable (v : Variable) {scopes : List StaticScope} (h : Complete scopes.tail) :
    Walks (Resolve.readVariable v) (namesOf scopes) (namesOf scopes) [.reading scopes v] := by
  refine seeing fun state hs => guarded (moves_file _ _ _) fun ready =>
    file (o := .reading scopes v) rfl (hops?_namesOf _ _) ?_
  intro hops complete found
  rcases of_locate_tail h found with complete | ⟨-, here⟩
  · exact complete
  · cases scopes with
    | nil => cases here
    | cons scope outer =>
      rw [hs] at ready
      cases complete with
      | true => rfl
      | false => exact absurd here (by simpa [Occurrence.reading] using ready)

end Walks

/-! ## 3. Expressions and statements

The induction is on the program, and the stack is the same for the walk and for the text at each
place.  What is assumed of the stack is `Complete` below the innermost scope, and `ContextFits`. -/

/-- The scopes of `this` and `super` are on the stack wherever the walk knows of a class. -/
def ContextFits (context : ResolveContext) (scopes : List StaticScope) : Prop :=
  match context.class with
  | .none => True
  | .base => ∃ hops, locate "this" scopes = some (hops, true)
  | .derived => ∃ hops, locate "this" scopes = some (hops, true) ∧
      locate "super" scopes = some (hops + 1, true)

namespace ContextFits

variable {context : ResolveContext} {scopes : List StaticScope}

/-- A new scope on top changes nothing about the scopes of `this` and `super` below. -/
theorem fresh (h : ContextFits context scopes) (origin : ScopeOrigin) :
    ContextFits context (fresh origin :: scopes) := by
  unfold ContextFits at h ⊢
  split at h
  · exact h
  · obtain ⟨hops, this⟩ := h
    exact ⟨hops + 1, by rw [locate_fresh, this]; rfl⟩
  · obtain ⟨hops, this, super⟩ := h
    exact ⟨hops + 1, by rw [locate_fresh, this]; rfl, by rw [locate_fresh, super]; rfl⟩

/-- An ordinary name is neither `this` nor `super`. -/
theorem bindName (h : ContextFits context scopes) {name : String} (ordinary : Ordinary name)
    (complete : Bool) : ContextFits context (bindName name complete scopes) := by
  unfold ContextFits at h ⊢
  rw [locate_bindName ordinary.1, locate_bindName ordinary.2]
  exact h

theorem bindParams (h : ContextFits context scopes) {params : List Name}
    (ordinary : ∀ name ∈ params, Ordinary name.text) :
    ContextFits context (bindParams params scopes) := by
  induction params generalizing scopes with
  | nil => exact h
  | cons name rest ih =>
    exact ih (h.bindName (ordinary name List.mem_cons_self) true)
      fun name hname => ordinary name (List.mem_cons_of_mem _ hname)

/-- The names that a statement declares are ordinary ones. -/
theorem after (h : ContextFits context scopes) {s : Stmt} (grammatical : s.Grammatical) :
    ContextFits context (s.after scopes) := by
  unfold Stmt.after
  cases hd : s.declared? with
  | none => exact h
  | some name => exact h.bindName (Stmt.ordinary_of_declared? grammatical hd) true

/-- Which kind of function is being walked over is of no concern to the stack. -/
theorem withFunction (h : ContextFits context scopes) (kind : FunContext) :
    ContextFits { context with function := kind } scopes := h

end ContextFits

open Occurrence (ofExpr ofExprs ofOptional ofStmt ofOptionalStmt ofStmts ofFunction ofMethods)

mutual

/-- Expressions leave the stack as it is.  By induction on the expression, in the order in which its
parts are walked over. -/
theorem walks_expr (context : ResolveContext) (scopes : List StaticScope)
    (complete : Complete scopes.tail) (fits : ContextFits context scopes) :
    ∀ e : Expr, e.Grammatical →
      Walks (expr context e) (namesOf scopes) (namesOf scopes) (ofExpr scopes e)
  | .literal _, _ => .nothing _
  | .grouping inner, h => walks_expr context scopes complete fits inner h
  | .unary _ _ operand, h => walks_expr context scopes complete fits operand h
  | .binary _ _ left right, h =>
    (walks_expr context scopes complete fits left h.1).andThen
      (walks_expr context scopes complete fits right h.2)
  | .logical _ _ left right, h =>
    (walks_expr context scopes complete fits left h.1).andThen
      (walks_expr context scopes complete fits right h.2)
  | .variable v, _ => .readVariable v complete
  | .assign target value, h => by
    refine (walks_expr context scopes complete fits value h.2).andThen
      (Walks.file (o := ⟨.writes target.id, target.name.text, scopes⟩) rfl (hops?_namesOf _ _) ?_)
    refine ⟨h.1, fun hops found => ?_⟩
    rcases of_locate_tail complete found with hc | ⟨rfl, -⟩
    · cases hc
    · rfl
  | .call callee arguments _, h =>
    (walks_expr context scopes complete fits callee h.1).andThen
      (walks_exprs context scopes complete fits arguments h.2)
  | .get object _, h => walks_expr context scopes complete fits object h
  | .set object _ value, h =>
    (walks_expr context scopes complete fits value h.2).andThen
      (walks_expr context scopes complete fits object h.1)
  | .this id line, _ => by
    unfold ContextFits at fits
    simp only [expr]
    cases hc : context.class with
    | none => exact .report _ _ _ _
    | base =>
      rw [hc] at fits
      exact Walks.file (o := ⟨.this id, "this", scopes⟩) rfl (hops?_namesOf _ _) fits
    | derived =>
      rw [hc] at fits
      obtain ⟨hops, this, -⟩ := fits
      exact Walks.file (o := ⟨.this id, "this", scopes⟩) rfl (hops?_namesOf _ _) ⟨hops, this⟩
  | .super id line method, _ => by
    unfold ContextFits at fits
    simp only [expr]
    cases hc : context.class with
    | none => exact .report _ _ _ _
    | base => exact .report _ _ _ _
    | derived =>
      rw [hc] at fits
      exact Walks.file (o := ⟨.super id, "super", scopes⟩) rfl (hops?_namesOf _ _) fits
  | .list _ elements, h => walks_exprs context scopes complete fits elements h

theorem walks_exprs (context : ResolveContext) (scopes : List StaticScope)
    (complete : Complete scopes.tail) (fits : ContextFits context scopes) :
    ∀ es : List Expr, Expr.GrammaticalAll es →
      Walks (exprs context es) (namesOf scopes) (namesOf scopes) (ofExprs scopes es)
  | [], _ => .nothing _
  | e :: es, h =>
    (walks_expr context scopes complete fits e h.1).andThen
      (walks_exprs context scopes complete fits es h.2)

end

theorem walks_optionalExpr (context : ResolveContext) (scopes : List StaticScope)
    (complete : Complete scopes.tail) (fits : ContextFits context scopes) (e : Option Expr)
    (h : Expr.GrammaticalOptional e) :
    Walks (optionalExpr context e) (namesOf scopes) (namesOf scopes) (ofOptional scopes e) := by
  cases e with
  | none => exact .nothing _
  | some e => exact walks_expr context scopes complete fits e h

/-- The parameters of a function are declared from left to right, and what comes behind starts with
all of them in scope. -/
theorem walks_params {y : Resolve Unit} {after : List LocalScope} {os : List Occurrence}
    (names : List Name) (ordinary : ∀ name ∈ names, Ordinary name.text) (scopes : List StaticScope)
    (h : Walks y (namesOf (bindParams names scopes)) after os) :
    Walks (do params names; y) (namesOf scopes) after (Occurrence.ofParams scopes names ++ os) := by
  induction names generalizing scopes with
  | nil => exact h
  | cons name rest ih =>
    exact .declare_define (ordinary name List.mem_cons_self)
      (ih (fun name hname => ordinary name (List.mem_cons_of_mem _ hname)) _ h)

/-- A class cannot be its own superclass, so the name that is read is not the one declared. -/
theorem walks_superclass (context : ResolveContext) {scopes : List StaticScope}
    (complete : Complete scopes) (name : Name) (parent : Variable) (methods : List FunDecl) :
    Walks (superclass context name (some parent)) (namesOf (bindName name.text true scopes))
      (namesOf (StaticScope.superclass methods :: bindName name.text true scopes))
      [.reading (bindName name.text false scopes) parent] := by
  have opens : Walks (do Resolve.pushScope; Resolve.bind "super" true)
      (namesOf (bindName name.text true scopes))
      (namesOf (StaticScope.superclass methods :: bindName name.text true scopes)) [] :=
    .andThen_nil (.pushScope _) (.bind _ _ _)
  refine .guarded (Walks.andThen_last (.readVariable parent
    (complete.tail_bindName name.text true)) opens).toMoves fun other => ?_
  refine .andThen_last (.seeing fun state _ => .guarded (Walks.moves_file _ _ _) fun _ => ?_) opens
  refine .file (o := .reading (bindName name.text false scopes) parent) rfl ?_ ?_
  · rw [namesOf_bindName, hops?_enter _ _ true false, ← namesOf_bindName, hops?_namesOf]
    rfl
  · intro hops found complete'
    rw [Occurrence.reading, locate_bindName (Ne.symm other)] at complete'
    exact complete.of_locate complete'

/-- The context of the methods of a class fits the scopes around each of them. -/
theorem ContextFits.methods (context : ResolveContext) (scopes : List StaticScope)
    (superclass : Option Variable) (methods : List FunDecl) (method : FunDecl) :
    ContextFits { context with «class» := if superclass.isSome then .derived else .base }
      (StaticScope.receiver method :: Occurrence.methodScopes scopes superclass methods) := by
  cases superclass with
  | none => exact ⟨0, rfl⟩
  | some parent => exact ⟨0, rfl, rfl⟩

mutual

/-- Statements may declare a name in the innermost scope, for the statements behind them.  Each
construct with a scope of its own pushes one and pops it again. -/
theorem walks_stmt (context : ResolveContext) (scopes : List StaticScope)
    (complete : Complete scopes) (fits : ContextFits context scopes) :
    ∀ s : Stmt, s.Grammatical →
      Walks (stmt context s) (namesOf scopes) (namesOf (s.after scopes)) (ofStmt scopes s)
  | .print _ value, h => walks_expr context scopes complete.tail fits value h
  | .expression value, h => walks_expr context scopes complete.tail fits value h
  | .varDecl name initializer, h => by
    have initial := walks_optionalExpr context (bindName name.text false scopes)
      (complete.tail_bindName name.text false) (fits.bindName h.1 false) initializer h.2
    have defined := Walks.define name (enter name.text false (namesOf scopes))
    rw [enter_enter, ← namesOf_bindName name.text true] at defined
    rw [namesOf_bindName] at initial
    exact (Walks.declare h.1 scopes).andThen (initial.andThen_last defined)
  | .block body, h => by
    refine .andThen_nil (.pushScope _) (.andThen_last (walks_stmts context
      (fresh (.block body) :: scopes) (complete.fresh _) (fits.fresh _) body h) ?_)
    have closes := Walks.popScope (namesOf (body.foldl Stmt.after (fresh (.block body) :: scopes)))
    rw [← List.map_tail, tail_foldl_after] at closes
    exact closes
  | .ifElse condition thenBranch elseBranch, h => by
    have first := walks_stmt context scopes complete fits thenBranch h.2.1.2
    rw [Stmt.after, h.2.1.1] at first
    have both := (walks_expr context scopes complete.tail fits condition h.1).andThen
      (first.andThen (walks_optionalStmt context scopes complete fits elseBranch h.2.2))
    rw [← List.append_assoc] at both
    exact both
  | .whileLoop condition body, h => by
    have turn := walks_stmt context scopes complete fits body h.2.2
    rw [Stmt.after, h.2.1] at turn
    exact (walks_expr context scopes complete.tail fits condition h.1).andThen turn
  | .forEach line name iterable body, h => by
    have inner := complete.fresh (.iteration name body)
    have turn := walks_stmt context
      (bindName name.text true (fresh (.iteration name body) :: scopes)) (inner.bindName _)
      ((fits.fresh _).bindName h.1 true) body h.2.2.2
    rw [Stmt.after, h.2.2.1] at turn
    have closes : Walks popScope
        (namesOf (bindName name.text true (fresh (.iteration name body) :: scopes)))
        (namesOf scopes) [] := .popScope _
    exact (walks_expr context scopes complete.tail fits iterable h.2.1).andThen
      (.andThen_nil (.pushScope _) (.declare_define h.1 (turn.andThen_last closes)))
  | .funDecl declaration, h =>
    .declare_define h.1 (walks_function _ _ (complete.bindName _)
      ((fits.bindName h.1 true).withFunction .function) declaration h.2)
  | .ret line value, h => by
    have moves := walks_optionalExpr context scopes complete.tail fits value h
    exact .guarded (Walks.guarded moves.toMoves fun _ => moves).toMoves
      fun _ => .guarded moves.toMoves fun _ => moves
  | .classDecl name none methods, h => by
    have inner := complete.bindName name.text
    have methodsWalk := walks_methodDecls { context with «class» := .base }
      (bindName name.text true scopes) inner (ContextFits.methods context _ none methods) _ rfl
      methods h.2
    have closes := Walks.popScope
      (Bindings.empty.insert "this" true :: namesOf (bindName name.text true scopes))
    exact .declare_define h.1 (.andThen_nil (.nothing _) (.andThen_nil (.pushScope _)
      (.andThen_nil (.bind _ _ _) (methodsWalk.andThen_last (closes.andThen_last (.nothing _))))))
  | .classDecl name (some parent) methods, h => by
    have inner := (complete.bindName name.text).methodScopes (some parent) methods
    have methodsWalk := walks_methodDecls { context with «class» := .derived }
      (StaticScope.superclass methods :: bindName name.text true scopes) inner
      (ContextFits.methods context _ (some parent) methods) _ rfl methods h.2
    have closes := Walks.popScope (Bindings.empty.insert "this" true ::
      namesOf (StaticScope.superclass methods :: bindName name.text true scopes))
    exact .declare_define h.1 ((walks_superclass context complete name parent methods).andThen
      (.andThen_nil (.pushScope _) (.andThen_nil (.bind _ _ _)
        (methodsWalk.andThen_last (closes.andThen_last (.popScope _))))))

theorem walks_optionalStmt (context : ResolveContext) (scopes : List StaticScope)
    (complete : Complete scopes) (fits : ContextFits context scopes) :
    ∀ s : Option Stmt, Stmt.GrammaticalBranch s →
      Walks (optionalStmt context s) (namesOf scopes) (namesOf scopes) (ofOptionalStmt scopes s)
  | none, _ => .nothing _
  | some s, h => by
    have branch := walks_stmt context scopes complete fits s h.2
    rw [Stmt.after, h.1] at branch
    exact branch

/-- The statements of a block, each with the names of those in front. -/
theorem walks_stmts (context : ResolveContext) (scopes : List StaticScope)
    (complete : Complete scopes) (fits : ContextFits context scopes) :
    ∀ body : List Stmt, Stmt.GrammaticalAll body →
      Walks (stmts context body) (namesOf scopes) (namesOf (body.foldl Stmt.after scopes))
        (ofStmts scopes body)
  | [], _ => .nothing _
  | s :: rest, h =>
    (walks_stmt context scopes complete fits s h.1).andThen
      (walks_stmts context (s.after scopes) (complete.after s) (fits.after h.1) rest h.2)

/-- The parameters and the body of a function share one scope, on top of the scopes around the
function. -/
theorem walks_function (context : ResolveContext) (scopes : List StaticScope)
    (complete : Complete scopes) (fits : ContextFits context scopes) :
    ∀ declaration : FunDecl, declaration.Grammatical →
      Walks (function context declaration) (namesOf scopes) (namesOf scopes)
        (ofFunction scopes declaration)
  | ⟨name, params, body⟩, h => by
    have opened := complete.fresh (.call ⟨name, params, body⟩)
    have inner := walks_stmts context
      (bindParams params (fresh (.call ⟨name, params, body⟩) :: scopes)) (opened.bindParams _)
      ((fits.fresh _).bindParams h.1) body h.2
    have closes := Walks.popScope (namesOf (body.foldl Stmt.after
      (bindParams params (fresh (.call ⟨name, params, body⟩) :: scopes))))
    rw [← List.map_tail, tail_foldl_after, tail_bindParams] at closes
    exact .andThen_nil (.pushScope _)
      (walks_params params h.1 _ (inner.andThen_last closes))

/-- All methods of a class start from the same stack, with `this` on top. -/
theorem walks_methodDecls (context : ResolveContext) (scopes : List StaticScope)
    (complete : Complete scopes)
    (fits : ∀ method, ContextFits context (StaticScope.receiver method :: scopes))
    (this : LocalScope) (bound : this = Bindings.empty.insert "this" true) :
    ∀ methods : List FunDecl, FunDecl.GrammaticalAll methods →
      Walks (methodDecls context methods) (this :: namesOf scopes) (this :: namesOf scopes)
        (ofMethods scopes methods)
  | [], _ => .nothing _
  | method :: rest, h => by
    subst bound
    exact (walks_function (methodContext method context) (StaticScope.receiver method :: scopes)
      (complete.receiver method) ((fits method).withFunction _) method h.1).andThen
      (walks_methodDecls context scopes complete fits _ rfl rest h.2)

end

/-- What the walk over a whole program ends with. -/
def finish (program : List Stmt) : ResolveState :=
  ((stmts ⟨.none, .none⟩ program).run ⟨[], .empty, []⟩).2

end Resolve

/-- A program has a resolution if the walk over it has found no errors. -/
theorem resolve_eq_ok {program : List Stmt} {resolution : Resolution} :
    resolve program = .ok resolution ↔
      (Resolve.finish program).errors = [] ∧ (Resolve.finish program).resolution = resolution := by
  change (if (Resolve.finish program).errors.isEmpty then
    Except.ok (Resolve.finish program).resolution else .error (Resolve.finish program).errors) =
      _ ↔ _
  rw [← List.isEmpty_iff]
  by_cases clean : (Resolve.finish program).errors.isEmpty = true
  · rw [if_pos clean, Except.ok.injEq]
    exact (and_iff_right clean).symm
  · rw [if_neg clean]
    constructor
    · intro h
      cases h
    · intro h
      exact absurd h.1 clean

/-! ## 4. Reading the resolution back

The walk has filed the occurrences of the program, one after the other.  Since no two of them have
the same id, what is found for an id is what was filed for it. -/

namespace Resolution

/-- What is filed for a node is what is found for it, and other nodes keep what they have. -/
theorem hops_insert (resolution : Resolution) (id other : Id) (hops : Nat) :
    (resolution.insert id hops).hops[other]? =
      if id = other then some hops else resolution.hops[other]? := by
  simp only [insert, Std.TreeMap.getElem?_insert, Nat.compare_eq_eq]

theorem binding_insert (resolution : Resolution) (id other : Id) (hops : Nat) :
    (resolution.insert id hops).binding other =
      if id = other then .local hops else resolution.binding other := by
  rw [binding, hops_insert]
  by_cases h : id = other <;> simp only [h, if_true, if_false, binding]

/-- A node that has not been filed before is bound as its occurrence says. -/
theorem binding_file (resolution : Resolution) (o : Occurrence) (id : Id)
    (h : o.role.id? = some id) (free : resolution.binding id = .global) :
    (resolution.file o).binding id = o.binding := by
  simp only [file, h, Occurrence.binding]
  cases locate o.name o.scopes with
  | none => exact free
  | some found => rw [binding_insert, if_pos rfl]

theorem binding_file_of_ne (resolution : Resolution) {o : Occurrence} {id : Id}
    (h : o.role.id? ≠ some id) : (resolution.file o).binding id = resolution.binding id := by
  unfold file
  split
  · rename_i filed _ hid _
    rw [binding_insert, if_neg]
    rintro rfl
    exact h hid
  · rfl

/-- The ids in a list of occurrences. -/
abbrev idsOf (os : List Occurrence) : List Id := os.filterMap (·.role.id?)

/-- Nodes that do not occur are not filed. -/
theorem binding_foldl_file_of_notMem {os : List Occurrence} {id : Id} (h : id ∉ idsOf os)
    (resolution : Resolution) : (os.foldl file resolution).binding id = resolution.binding id := by
  induction os generalizing resolution with
  | nil => rfl
  | cons o rest ih =>
    have hne : o.role.id? ≠ some id := fun hid =>
      h (List.mem_filterMap.2 ⟨o, List.mem_cons_self, hid⟩)
    have hrest : id ∉ idsOf rest := by
      intro hmem
      obtain ⟨o', ho', hid⟩ := List.mem_filterMap.1 hmem
      exact h (List.mem_filterMap.2 ⟨o', List.mem_cons_of_mem _ ho', hid⟩)
    exact (ih hrest _).trans (binding_file_of_ne resolution hne)

/-- Under ids that differ, every occurrence that has been filed is found again. -/
theorem binding_foldl_file {os : List Occurrence} (distinct : (idsOf os).Nodup)
    {resolution : Resolution} {o : Occurrence} (ho : o ∈ os) {id : Id} (hid : o.role.id? = some id)
    (free : resolution.binding id = .global) :
    (os.foldl file resolution).binding id = o.binding := by
  induction os generalizing resolution with
  | nil => cases ho
  | cons first rest ih =>
    rcases List.mem_cons.1 ho with rfl | hmem
    · have hrest : id ∉ idsOf rest := by
        rw [idsOf, List.filterMap_cons, hid] at distinct
        exact (List.nodup_cons.1 distinct).1
      exact (binding_foldl_file_of_notMem hrest _).trans (binding_file resolution o id hid free)
    · have hmemIds : id ∈ idsOf rest := List.mem_filterMap.2 ⟨o, hmem, hid⟩
      have hne : first.role.id? ≠ some id := by
        intro hfirst
        rw [idsOf, List.filterMap_cons, hfirst] at distinct
        exact (List.nodup_cons.1 distinct).1 hmemIds
      have hdistinct : (idsOf rest).Nodup := by
        cases hfirst : first.role.id? with
        | none => rwa [idsOf, List.filterMap_cons, hfirst] at distinct
        | some other =>
          rw [idsOf, List.filterMap_cons, hfirst] at distinct
          exact (List.nodup_cons.1 distinct).2
      exact ih hdistinct hmem ((binding_file_of_ne resolution hne).trans free)

/-- Of two resolutions that are put together, the later one counts. -/
theorem hops_absorb (resolution later : Resolution) (id : Id) :
    (resolution.absorb later).hops[id]? = later.hops[id]?.or resolution.hops[id]? := by
  cases hlater : later.hops[id]? with
  | some hops =>
    have hmem : (id, hops) ∈ later.hops.toList :=
      Std.TreeMap.mem_toList_iff_getElem?_eq_some.2 hlater
    exact Std.TreeMap.getElem?_insertMany_list_of_mem Std.ReflCmp.compare_self
      Std.TreeMap.distinct_keys_toList hmem
  | none =>
    have hfree : (later.hops.toList.map Prod.fst).contains id = false := by
      rw [Bool.eq_false_iff]
      intro hcontains
      obtain ⟨⟨_, hops⟩, hmem, rfl⟩ := List.mem_map.1 (List.contains_iff_mem.1 hcontains)
      rw [Std.TreeMap.mem_toList_iff_getElem?_eq_some, hlater] at hmem
      cases hmem
    exact Std.TreeMap.getElem?_insertMany_list_of_contains_eq_false hfree

/-- When two resolutions are put together, the later one is asked first. -/
theorem binding_absorb (resolution later : Resolution) (id : Id) :
    (resolution.absorb later).binding id =
      match later.binding id with
      | .local hops => .local hops
      | .global => resolution.binding id := by
  simp only [binding, hops_absorb]
  cases later.hops[id]? <;> rfl

open Occurrence (ofExpr ofExprs ofOptional ofParams ofStmt ofOptionalStmt ofStmts ofFunction
  ofMethods)

theorem idsOf_append (os os' : List Occurrence) : idsOf (os ++ os') = idsOf os ++ idsOf os' :=
  List.filterMap_append

mutual

/-- The occurrences in an expression and the nodes in it are in the same order. -/
theorem idsOf_ofExpr (scopes : List StaticScope) : ∀ e : Expr, idsOf (ofExpr scopes e) = e.ids
  | .literal _ => rfl
  | .grouping inner => idsOf_ofExpr scopes inner
  | .unary _ _ operand => idsOf_ofExpr scopes operand
  | .binary _ _ left right => by
    rw [ofExpr, idsOf_append, idsOf_ofExpr scopes left, idsOf_ofExpr scopes right, Expr.ids]
  | .logical _ _ left right => by
    rw [ofExpr, idsOf_append, idsOf_ofExpr scopes left, idsOf_ofExpr scopes right, Expr.ids]
  | .variable _ => rfl
  | .assign target value => by
    rw [ofExpr, idsOf_append, idsOf_ofExpr scopes value, Expr.ids]
    rfl
  | .call callee arguments _ => by
    rw [ofExpr, idsOf_append, idsOf_ofExpr scopes callee, idsOf_ofExprs scopes arguments, Expr.ids]
  | .get object _ => idsOf_ofExpr scopes object
  | .set object _ value => by
    rw [ofExpr, idsOf_append, idsOf_ofExpr scopes value, idsOf_ofExpr scopes object, Expr.ids]
  | .this _ _ => rfl
  | .super _ _ _ => rfl
  | .list _ elements => idsOf_ofExprs scopes elements

theorem idsOf_ofExprs (scopes : List StaticScope) :
    ∀ es : List Expr, idsOf (ofExprs scopes es) = Expr.idsAll es
  | [] => rfl
  | e :: es => by
    rw [ofExprs, idsOf_append, idsOf_ofExpr scopes e, idsOf_ofExprs scopes es, Expr.idsAll]

end

theorem idsOf_ofOptional (scopes : List StaticScope) (e : Option Expr) :
    idsOf (ofOptional scopes e) = Expr.idsOptional e := by
  cases e with
  | none => rfl
  | some e => exact idsOf_ofExpr scopes e

theorem idsOf_ofParams (scopes : List StaticScope) (params : List Name) :
    idsOf (ofParams scopes params) = [] := by
  induction params generalizing scopes with
  | nil => rfl
  | cons name rest ih => exact ih _

mutual

/-- As for expressions.  The nodes of a program are therefore distinct in its occurrences as
well. -/
theorem idsOf_ofStmt (scopes : List StaticScope) : ∀ s : Stmt, idsOf (ofStmt scopes s) = s.ids
  | .print _ value => idsOf_ofExpr scopes value
  | .expression value => idsOf_ofExpr scopes value
  | .varDecl _ initializer => idsOf_ofOptional _ initializer
  | .block body => idsOf_ofStmts _ body
  | .ifElse condition thenBranch elseBranch => by
    rw [ofStmt, idsOf_append, idsOf_append, idsOf_ofExpr scopes condition,
      idsOf_ofStmt scopes thenBranch, idsOf_ofOptionalStmt scopes elseBranch, Stmt.ids]
  | .whileLoop condition body => by
    rw [ofStmt, idsOf_append, idsOf_ofExpr scopes condition, idsOf_ofStmt scopes body, Stmt.ids]
  | .forEach _ name iterable body => by
    rw [ofStmt, idsOf_append, idsOf_ofExpr scopes iterable, Stmt.ids, ← idsOf_ofStmt _ body]
    rfl
  | .funDecl declaration => idsOf_ofFunction _ declaration
  | .ret _ value => idsOf_ofOptional scopes value
  | .classDecl name none methods => idsOf_ofMethods _ methods
  | .classDecl name (some parent) methods => congrArg (parent.id :: ·) (idsOf_ofMethods _ methods)

theorem idsOf_ofOptionalStmt (scopes : List StaticScope) :
    ∀ s : Option Stmt, idsOf (ofOptionalStmt scopes s) = Stmt.idsOptional s
  | none => rfl
  | some s => idsOf_ofStmt scopes s

theorem idsOf_ofStmts (scopes : List StaticScope) :
    ∀ body : List Stmt, idsOf (ofStmts scopes body) = Stmt.idsAll body
  | [] => rfl
  | s :: rest => by
    rw [ofStmts, idsOf_append, idsOf_ofStmt scopes s, idsOf_ofStmts _ rest, Stmt.idsAll]

theorem idsOf_ofFunction (scopes : List StaticScope) :
    ∀ declaration : FunDecl, idsOf (ofFunction scopes declaration) = declaration.ids
  | ⟨_, params, body⟩ => by
    rw [ofFunction, idsOf_append, idsOf_ofParams, idsOf_ofStmts _ body]
    rfl

theorem idsOf_ofMethods (scopes : List StaticScope) :
    ∀ methods : List FunDecl, idsOf (ofMethods scopes methods) = FunDecl.idsAll methods
  | [] => rfl
  | method :: rest => by
    rw [ofMethods, idsOf_append, idsOf_ofFunction _ method, idsOf_ofMethods scopes rest,
      FunDecl.idsAll]

end

/-- Nothing is bound before anything is filed. -/
theorem binding_empty (id : Id) : empty.binding id = .global := by
  simp [binding, empty]

/-- What a successful walk over a whole program has filed and found. -/
theorem walked_of_resolve {program : List Stmt} (grammatical : Stmt.GrammaticalAll program)
    {resolution : Resolution} (h : resolve program = .ok resolution) :
    resolution = (Occurrence.ofProgram program).foldl file .empty ∧
      ∀ o ∈ Occurrence.ofProgram program, o.Admissible := by
  have walks := Resolve.walks_stmts ⟨.none, .none⟩ [] (fun _ hscope => by cases hscope) trivial
    program grammatical
  obtain ⟨ok, rfl⟩ := resolve_eq_ok.1 h
  exact ⟨walks.files _ rfl ok, walks.admits _ rfl ok⟩

/-- **Every occurrence in a program without static errors is admissible**, and it is filed in the
resolution of the program, in which no other ids are. -/
theorem of_resolve {program : List Stmt} (grammatical : Stmt.GrammaticalAll program)
    (distinct : (Stmt.idsAll program).Nodup) {resolution : Resolution}
    (h : resolve program = .ok resolution) :
    (∀ o ∈ Occurrence.ofProgram program, o.Admissible ∧ o.Filed resolution) ∧
      ∀ id ∉ Stmt.idsAll program, resolution.binding id = .global := by
  obtain ⟨rfl, admissible⟩ := walked_of_resolve grammatical h
  rw [← idsOf_ofStmts []] at distinct
  refine ⟨fun o ho => ⟨admissible o ho, fun id hid => ?_⟩, fun id hid => ?_⟩
  · exact binding_foldl_file distinct ho hid (binding_empty id)
  · rw [← idsOf_ofStmts []] at hid
    exact (binding_foldl_file_of_notMem hid _).trans (binding_empty id)

end Resolution

end Lox
