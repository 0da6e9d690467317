/-
# Programs that are alike resolve alike

Resolving looks at the names of a program and never at its ids or lines, except that it files under
the ids and that its errors show the lines.  So walks over trees that are alike pass through the
same scopes, find the same errors but for their lines, and file the same hops under ids that stand
for each other (`alike_stmts`).  For that no id may stand for two.
-/
import Lox.Proofs.Scoping.Resolve
import Lox.Proofs.Syntax.Likeness

namespace Lox

variable {m : Likeness}

/-- No id stands for two. -/
def Likeness.OneToOne (m : Likeness) : Prop :=
  ∀ i j i' j', m.ids i j → m.ids i' j' → (i = i' ↔ j = j')

/-- Resolutions that bind ids alike. -/
def Resolution.Alike (m : Likeness) (r r' : Resolution) : Prop :=
  ∀ i j, m.ids i j → r.binding i = r'.binding j

/-- Errors of one cause at names that are alike. -/
structure ResolutionError.Alike (m : Likeness) (e e' : ResolutionError) : Prop where
  place : e.place.Alike m e'.place
  cause : e.cause = e'.cause

namespace Resolution.Alike

variable {r r' later later' : Resolution}

/-- Under an id, the same hops as under the one that stands for it.  As no id stands for two, no
other entry is hit. -/
theorem insert (h : r.Alike m r') (distinct : m.OneToOne) {id id' : Id} (ids : m.ids id id')
    (hops : Nat) : (r.insert id hops).Alike m (r'.insert id' hops) := by
  intro i j like
  rw [binding_insert, binding_insert, h i j like]
  by_cases same : id = i
  · rw [if_pos same, if_pos ((distinct _ _ _ _ ids like).1 same)]
  · rw [if_neg same, if_neg fun eq => same ((distinct _ _ _ _ ids like).2 eq)]

/-- Two resolutions put together. -/
theorem absorb (h : r.Alike m r') (hl : later.Alike m later') :
    (r.absorb later).Alike m (r'.absorb later') := by
  intro i j like
  rw [binding_absorb, binding_absorb, h i j like, hl i j like]

end Resolution.Alike

namespace Resolve

/-- States of walks that are alike. -/
structure State.Alike (m : Likeness) (s s' : ResolveState) : Prop where
  scopes : s.scopes = s'.scopes
  resolution : s.resolution.Alike m s'.resolution
  errors : List.Forall₂ (ResolutionError.Alike m) s.errors s'.errors

/-- Steps that end alike from states that are alike. -/
def Alike (m : Likeness) (x y : Resolve Unit) : Prop :=
  ∀ s s' : ResolveState, State.Alike m s s' → State.Alike m (x.run s).2 (y.run s').2

namespace Alike

variable {x y x' y' : Resolve Unit}

theorem nothing : Alike m (pure ()) (pure ()) := fun _ _ like => like

/-- Steps follow each other. -/
theorem andThen (h : Alike m x y) (h' : Alike m x' y') :
    Alike m (do x; x') (do y; y') :=
  fun s s' like => h' _ _ (h s s' like)

/-- Changes of the state that keep it alike. -/
theorem modify {f g : ResolveState → ResolveState}
    (h : ∀ s s', State.Alike m s s' → State.Alike m (f s) (g s')) :
    Alike m (modify f) (modify g) :=
  h

/-- Steps that look at the scopes first. -/
theorem seeing {view view' : ResolveState → Resolve Unit}
    (h : ∀ s s', State.Alike m s s' → Alike m (view s) (view' s')) :
    Alike m (do view (← get)) (do view' (← get)) :=
  fun s s' like => h s s' like s s' like

/-- Conditions that both hold or both fail. -/
theorem ite {p q : Prop} [Decidable p] [Decidable q] (same : p ↔ q) (h : Alike m x y)
    (h' : Alike m x' y') : Alike m (if p then x else x') (if q then y else y') := by
  by_cases hp : p
  · rw [if_pos hp, if_pos (same.1 hp)]
    exact h
  · rw [if_neg hp, if_neg fun hq => hp (same.2 hq)]
    exact h'

/-! ## 1. Scopes and names

The stack of scopes is the same in both walks, since it has names only. -/

/-- The errors are alike in all but the line. -/
theorem report {place place' : Name} (places : place.Alike m place') (cause : ResolutionCause) :
    Alike m (Resolve.report place cause) (Resolve.report place' cause) :=
  .modify fun _ _ like =>
    { like with errors := List.rel_append like.errors (.cons ⟨places, rfl⟩ .nil) }

theorem pushScope : Alike m Resolve.pushScope Resolve.pushScope :=
  .modify fun _ _ like => { like with scopes := congrArg (Bindings.empty :: ·) like.scopes }

theorem popScope : Alike m Resolve.popScope Resolve.popScope :=
  .modify fun _ _ like => { like with scopes := congrArg List.tail like.scopes }

/-- The same name is bound in both. -/
theorem bind (name : String) (ready : Bool) :
    Alike m (Resolve.bind name ready) (Resolve.bind name ready) :=
  .modify fun s s' like => by
    rw [like.scopes]
    split
    · exact like
    · exact { like with scopes := rfl }

/-- A name has been declared before in both, or in neither. -/
theorem declare {name name' : Name} (names : name.Alike m name') :
    Alike m (Resolve.declare name) (Resolve.declare name') := by
  refine .seeing fun s s' like => .andThen ?_ (.ite ?_ (.report names _) .nothing)
  · rw [names.text]
    exact .bind _ _
  · rw [names.text, like.scopes]

theorem define {name name' : Name} (names : name.Alike m name') :
    Alike m (Resolve.define name) (Resolve.define name') := by
  unfold Resolve.define
  rw [names.text]
  exact .bind _ _

/-- Declaring a name and making it ready at once. -/
theorem introduce {name name' : Name} (names : name.Alike m name') (h : Alike m x y) :
    Alike m (do Resolve.declare name; Resolve.define name; x)
      (do Resolve.declare name'; Resolve.define name'; y) :=
  .andThen (.declare names) (.andThen (.define names) h)

/-- Parameters that are alike one by one. -/
theorem params {names names' : List Name} (likes : List.Forall₂ (Name.Alike m) names names') :
    Alike m (Resolve.params names) (Resolve.params names') := by
  induction likes with
  | nil => exact .nothing
  | cons like _ ih => exact .introduce like ih

variable (distinct : m.OneToOne)

include distinct

/-- The same hops are filed under ids that stand for each other. -/
theorem file {id id' : Id} (ids : m.ids id id') (name : String) :
    Alike m (Resolve.file id name) (Resolve.file id' name) :=
  .modify fun s s' like => by
    rw [like.scopes]
    split
    · exact { like with resolution := like.resolution.insert distinct ids _, scopes := rfl }
    · exact like

/-- A variable is being declared in both, or in neither. -/
theorem readVariable {v v' : Variable} (like : v.Alike m v') :
    Alike m (Resolve.readVariable v) (Resolve.readVariable v') := by
  refine .seeing fun s s' same => ?_
  have filed : Alike m (Resolve.file v.id v.name.text) (Resolve.file v'.id v'.name.text) := by
    rw [like.name.text]
    exact .file distinct like.id _
  refine .ite ?_ (.andThen (.report like.name _) filed) filed
  rw [like.name.text, same.scopes]

end Alike

/-! ## 2. Programs

One case for each construct, with the same context on both sides. -/

mutual

/-- By recursion on the two expressions. -/
theorem alike_expr (distinct : m.OneToOne) (context : ResolveContext) :
    ∀ {e e' : Expr}, e.Alike m e' → Alike m (expr context e) (expr context e')
  | _, _, .literal _ => .nothing
  | _, _, .grouping inner => (alike_expr distinct context inner :)
  | _, _, .unary _ operand => (alike_expr distinct context operand :)
  | _, _, .binary _ left right =>
    .andThen (alike_expr distinct context left) (alike_expr distinct context right)
  | _, _, .logical _ left right =>
    .andThen (alike_expr distinct context left) (alike_expr distinct context right)
  | _, _, .variable occurrence => .readVariable distinct occurrence
  | _, _, .assign target value => .andThen (alike_expr distinct context value) <| by
    rw [target.name.text]
    exact .file distinct target.id _
  | _, _, .call callee arguments _ =>
    .andThen (alike_expr distinct context callee) (alike_exprs distinct context arguments)
  | _, _, .get object _ => (alike_expr distinct context object :)
  | _, _, .set object _ value =>
    .andThen (alike_expr distinct context value) (alike_expr distinct context object)
  | _, _, .this ids lines => by
    unfold expr
    cases context.class with
    | none => exact .report (.of_lines lines _) _
    | base | derived => exact .file distinct ids _
  | _, _, .super ids lines _ => by
    unfold expr
    cases context.class with
    | none | base => exact .report (.of_lines lines _) _
    | derived => exact .file distinct ids _
  | _, _, .list _ elements => (alike_exprs distinct context elements :)

theorem alike_exprs (distinct : m.OneToOne) (context : ResolveContext) :
    ∀ {es es' : List Expr}, Expr.AlikeAll m es es' →
      Alike m (exprs context es) (exprs context es')
  | _, _, .nil => .nothing
  | _, _, .cons first rest =>
    .andThen (alike_expr distinct context first) (alike_exprs distinct context rest)

end

theorem alike_optionalExpr (distinct : m.OneToOne) (context : ResolveContext) {e e' : Option Expr}
    (like : Option.Rel (Expr.Alike m) e e') :
    Alike m (optionalExpr context e) (optionalExpr context e') := by
  cases like with
  | none => exact .nothing
  | some like => exact alike_expr distinct context like

/-- Whether a class is its own superclass depends on names. -/
theorem alike_superclass (distinct : m.OneToOne) (context : ResolveContext) {name name' : Name}
    (names : name.Alike m name') {parent parent' : Option Variable}
    (like : Option.Rel (Variable.Alike m) parent parent') :
    Alike m (superclass context name parent) (superclass context name' parent') := by
  cases like with
  | none => exact .nothing
  | some like =>
    have found : Alike m (do readVariable _; pushScope; bind "super" true)
        (do readVariable _; pushScope; bind "super" true) :=
      .andThen (.readVariable distinct like) (.andThen .pushScope (.bind _ _))
    exact .ite (by rw [like.name.text, names.text]) (.andThen (.report like.name _) found) found

mutual

/-- By recursion on the two statements. -/
theorem alike_stmt (distinct : m.OneToOne) (context : ResolveContext) :
    ∀ {s s' : Stmt}, s.Alike m s' → Alike m (stmt context s) (stmt context s')
  | _, _, .print _ value => (alike_expr distinct context value :)
  | _, _, .expression value => (alike_expr distinct context value :)
  | _, _, .varDecl names initializer =>
    .andThen (.declare names)
      (.andThen (alike_optionalExpr distinct context initializer) (.define names))
  | _, _, .block statements =>
    .andThen .pushScope (.andThen (alike_stmts distinct context statements) .popScope)
  | _, _, .ifThen condition branch =>
    .andThen (alike_expr distinct context condition)
      (.andThen (alike_stmt distinct context branch) .nothing)
  | _, _, .ifElse condition branch otherwise =>
    .andThen (alike_expr distinct context condition)
      (.andThen (alike_stmt distinct context branch) (alike_stmt distinct context otherwise))
  | _, _, .whileLoop condition body =>
    .andThen (alike_expr distinct context condition) (alike_stmt distinct context body)
  | _, _, .forEach _ names iterable body =>
    .andThen (alike_expr distinct context iterable)
      (.andThen .pushScope
        (.introduce names (.andThen (alike_stmt distinct context body) .popScope)))
  | _, _, .funDecl declared =>
    .introduce declared.name
      (alike_function distinct { context with function := .function } declared)
  | _, _, .ret lines given => by
    have value := alike_optionalExpr distinct context given
    refine .ite Iff.rfl (.andThen (.report (.of_lines lines _) _) ?_) ?_
    all_goals
      cases given <;> exact .ite Iff.rfl (.andThen (.report (.of_lines lines _) _) value) value
  | _, _, .classDecl names superclass declared => by
    refine .introduce names (.andThen (alike_superclass distinct context names superclass)
      (.andThen .pushScope (.andThen (.bind _ _) ?_)))
    cases superclass with
    | none => exact .andThen (alike_methodDecls distinct _ declared) (.andThen .popScope .nothing)
    | some => exact .andThen (alike_methodDecls distinct _ declared) (.andThen .popScope .popScope)

theorem alike_stmts (distinct : m.OneToOne) (context : ResolveContext) :
    ∀ {body body' : List Stmt}, Stmt.AlikeAll m body body' →
      Alike m (stmts context body) (stmts context body')
  | _, _, .nil => .nothing
  | _, _, .cons first rest =>
    .andThen (alike_stmt distinct context first) (alike_stmts distinct context rest)

/-- Parameters and body, in the same context. -/
theorem alike_function (distinct : m.OneToOne) (context : ResolveContext) :
    ∀ {declaration declaration' : FunDecl}, declaration.Alike m declaration' →
      Alike m (function context declaration) (function context declaration')
  | _, _, .mk _ parameters statements =>
    .andThen .pushScope (.andThen (.params parameters)
      (.andThen (alike_stmts distinct context statements) .popScope))

theorem alike_methodDecls (distinct : m.OneToOne) (context : ResolveContext) :
    ∀ {methods methods' : List FunDecl}, FunDecl.AlikeAll m methods methods' →
      Alike m (methodDecls context methods) (methodDecls context methods')
  | _, _, .nil => .nothing
  | _, _, .cons first others => by
    refine .andThen ?_ (alike_methodDecls distinct context others)
    unfold methodContext
    rw [first.isInitializer_eq]
    exact alike_function distinct _ first

end

end Resolve

/-- **A program that is like one without static errors has none either**, and their resolutions
are alike. -/
theorem alike_resolve (distinct : m.OneToOne) {program program' : List Stmt}
    (likes : Stmt.AlikeAll m program program') {resolution : Resolution}
    (h : resolve program = .ok resolution) :
    ∃ resolution', resolve program' = .ok resolution' ∧ resolution.Alike m resolution' := by
  have start : Resolve.State.Alike m ⟨[], .empty, []⟩ ⟨[], .empty, []⟩ :=
    ⟨rfl, fun i j _ => (Resolution.binding_empty i).trans (Resolution.binding_empty j).symm, .nil⟩
  have finish : Resolve.State.Alike m (Resolve.finish program) (Resolve.finish program') :=
    Resolve.alike_stmts distinct ⟨.none, .none⟩ likes _ _ start
  obtain ⟨none, rfl⟩ := resolve_eq_ok.1 h
  refine ⟨_, resolve_eq_ok.2 ⟨?_, rfl⟩, finish.resolution⟩
  have errors := finish.errors
  rw [none] at errors
  exact List.forall₂_nil_left_iff.1 errors

end Lox
