/-
# The walk of the resolver is balanced

Whatever the walk has found before, errors included, a statement leaves it in the place, and under
the scopes, in which it began: only the innermost scope has been added to, under the names that the
statement itself declares (`resolver_is_balanced`).  Top-level code has no scope.  So the walk over
a program that follows another one begins as if there were no other, and what the two are found to
be is put together from what each of them is.

`Resolve.Leads` says this of a step.  It also says that what the step files and reports does not
turn on what has been filed and reported before; that is what makes two programs independent.  §2
has one case for each step of the walk and §3 one for each construct.
-/
import Mathlib
import Lox.Proofs.Scoping.Lexical
import Lox.Proofs.Scoping.Resolver

namespace Lox

/-! ## 1. The names that a statement declares

A statement declares a name or none.  They are entered where the statement stands. -/

mutual

/-- The names that a statement declares in the scope that it stands in, in the order of the text. -/
def Stmt.declares : Stmt → List String
  | .varDecl name _ => [name.text]
  | .funDecl declaration => [declaration.name.text]
  | .classDecl name _ _ => [name.text]
  | .ifElse _ thenBranch elseBranch => thenBranch.declares ++ Stmt.optionalDeclares elseBranch
  | .whileLoop _ body => body.declares
  | .print _ _ | .expression _ | .block _ | .forEach _ _ _ _ | .ret _ _ => []

/-- The names that a statement declares, where there may be none. -/
def Stmt.optionalDeclares : Option Stmt → List String
  | none => []
  | some s => s.declares

end

/-- The names that statements declare in the scope that they stand in. -/
def Stmt.allDeclare (body : List Stmt) : List String := body.flatMap Stmt.declares

namespace StaticScope

/-- Enters names in the innermost scope, each of them ready. -/
def enterAll (names : List String) (scopes : List LocalScope) : List LocalScope :=
  names.foldl (fun scopes name => enter name true scopes) scopes

variable (names names' : List String) (scopes : List LocalScope)

/-- Names that are entered one after the other. -/
theorem enterAll_append :
    enterAll (names ++ names') scopes = enterAll names' (enterAll names scopes) :=
  List.foldl_append

/-- Top-level code has no scope to enter names in. -/
theorem enterAll_nil : enterAll names [] = [] := by
  induction names with
  | nil => rfl
  | cons name rest ih => exact ih

theorem enterAll_cons (scope : LocalScope) (outer : List LocalScope) :
    enterAll names (scope :: outer) =
      names.foldl (fun scope name => scope.insert name true) scope :: outer := by
  induction names generalizing scope with
  | nil => rfl
  | cons name rest ih => exact ih (scope.insert name true)

/-- Only the innermost scope is added to. -/
@[simp] theorem tail_enterAll : (enterAll names scopes).tail = scopes.tail := by
  cases scopes with
  | nil => rw [enterAll_nil]
  | cons scope outer => rw [enterAll_cons]; rfl

@[simp] theorem length_enterAll : (enterAll names scopes).length = scopes.length := by
  cases scopes with
  | nil => rw [enterAll_nil]
  | cons scope outer => rw [enterAll_cons]; rfl

end StaticScope

/-- What a scope says of a name once some names have been entered. -/
theorem Bindings.get?_foldl_insert {α : Type} (names : List String) (value : α)
    (bindings : Bindings α) (name : String) :
    (names.foldl (fun bindings name => bindings.insert name value) bindings).get? name =
      if name ∈ names then some value else bindings.get? name := by
  induction names generalizing bindings with
  | nil => simp
  | cons first rest ih =>
    rw [List.foldl_cons, ih, get?_insert]
    by_cases last : name ∈ rest
    · simp [last]
    · by_cases here : first = name <;> simp [last, here, eq_comm (a := name)]

open StaticScope (enter enterAll enterAll_append enterAll_nil enterAll_cons tail_enterAll
  length_enterAll enter_enter)

/-! ## 2. Steps of the walk

A step is given by the stacks before and after.  That it adds to what has been filed and reported is
stated with what it adds as a witness. -/

/-- Files hops, one after the other. -/
def Resolution.fileAll (filed : List (Id × Nat)) (resolution : Resolution) : Resolution :=
  filed.foldl (fun resolution entry => resolution.insert entry.1 entry.2) resolution

/-- A step leads from one stack of scopes to another.  It files and reports the same whatever has
been filed and reported before. -/
def Resolve.Leads (step : Resolve Unit) (before after : List LocalScope) : Prop :=
  ∃ filed new, ∀ resolution errors, (step.run ⟨before, resolution, errors⟩).2 =
    ⟨after, resolution.fileAll filed, errors ++ new⟩

namespace Resolve.Leads

variable {x y : Resolve Unit} {before middle after : List LocalScope}

/-- A step that does nothing. -/
theorem nothing (scopes : List LocalScope) : Leads (pure ()) scopes scopes := by
  refine ⟨[], [], fun resolution errors => ?_⟩
  rw [List.append_nil]
  rfl

/-- Two steps, one after the other. -/
theorem andThen (hx : Leads x before middle) (hy : Leads y middle after) :
    Leads (do x; y) before after := by
  obtain ⟨filed, new, hx⟩ := hx
  obtain ⟨filed', new', hy⟩ := hy
  refine ⟨filed ++ filed', new ++ new', fun resolution errors => ?_⟩
  change (y.run (x.run _).2).2 = _
  rw [hx, hy, Resolution.fileAll, Resolution.fileAll, Resolution.fileAll, List.foldl_append,
    List.append_assoc]

/-- A step that changes the scopes only. -/
theorem quiet (step : ∀ resolution errors,
      (x.run ⟨before, resolution, errors⟩).2 = ⟨after, resolution, errors⟩) :
    Leads x before after := by
  refine ⟨[], [], fun resolution errors => ?_⟩
  rw [step, List.append_nil]
  rfl

theorem pushScope (scopes : List LocalScope) :
    Leads Resolve.pushScope scopes (.empty :: scopes) :=
  quiet fun _ _ => rfl

/-- To pop a scope is to go back to the ones around. -/
theorem popScope (scopes : List LocalScope) : Leads Resolve.popScope scopes scopes.tail :=
  quiet fun _ _ => rfl

theorem bind (name : String) (ready : Bool) (scopes : List LocalScope) :
    Leads (Resolve.bind name ready) scopes (enter name ready scopes) :=
  quiet fun _ _ => run_bind name ready _

/-- A name that is completed is entered as ready. -/
theorem define (name : Name) (scopes : List LocalScope) :
    Leads (Resolve.define name) scopes (enterAll [name.text] scopes) :=
  bind name.text true scopes

/-- A report leaves the stack alone. -/
theorem report (place : Name) (cause : ResolutionCause) (scopes : List LocalScope) :
    Leads (Resolve.report place cause) scopes scopes :=
  ⟨[], [⟨place, cause⟩], fun _ _ => rfl⟩

/-- A name that is declared twice in a scope is reported, and entered all the same. -/
theorem declare (name : Name) (scopes : List LocalScope) :
    Leads (Resolve.declare name) scopes (enter name.text false scopes) := by
  let again : List ResolutionError :=
    if scopes.head?.any (·.contains name.text) then [⟨name, .redeclared⟩] else []
  refine ⟨[], again, fun resolution errors => ?_⟩
  rw [run_declare]
  rfl

/-- Declaring a name and making it ready at once. -/
theorem declare_define {name : Name} {scopes : List LocalScope}
    (h : Leads x (enterAll [name.text] scopes) after) :
    Leads (do Resolve.declare name; Resolve.define name; x) scopes after := by
  have ready := define name (enter name.text false scopes)
  rw [show enterAll [name.text] (enter name.text false scopes) = enterAll [name.text] scopes from
    enter_enter name.text false true scopes] at ready
  exact (declare name scopes).andThen (ready.andThen h)

/-- What is filed for a node depends on the stack, which stays as it is. -/
theorem file (id : Id) (name : String) (scopes : List LocalScope) :
    Leads (Resolve.file id name) scopes scopes := by
  refine ⟨((hops? name scopes).map (id, ·)).toList, [], fun resolution errors => ?_⟩
  rw [run_file, filing, List.append_nil]
  cases hops? name scopes <;> rfl

/-- A variable is filed, and reported if it is being declared. -/
theorem readVariable (v : Variable) (scopes : List LocalScope) :
    Leads (Resolve.readVariable v) scopes scopes := by
  let unready := scopes.head?.any fun scope => decide (scope.get? v.name.text = some false)
  refine ⟨((hops? v.name.text scopes).map (v.id, ·)).toList,
    if unready then [⟨v.name, .readInInitializer⟩] else [], fun resolution errors => ?_⟩
  rw [run_readVariable, filing]
  cases hops? v.name.text scopes <;> rfl

/-- A check, and the step behind it. -/
theorem checked {p : Prop} [Decidable p] {place : Name} {cause : ResolutionCause}
    (h : Leads x before after) :
    Leads (if p then (do Resolve.report place cause; x) else x) before after := by
  split
  · exact (report place cause before).andThen h
  · exact h

/-- What is done in a scope of its own leaves the scopes around it alone. -/
theorem inside {names : List String} {scope : LocalScope} {outer : List LocalScope}
    (h : Leads x (scope :: outer) (enterAll names (scope :: outer))) :
    Leads (do x; Resolve.popScope) (scope :: outer) outer := by
  have last := popScope (enterAll names (scope :: outer))
  rw [tail_enterAll] at last
  exact h.andThen last

end Resolve.Leads

/-! ## 3. Expressions and statements

Constructs with a scope of their own come back to the scopes around (`inside`). -/

namespace Resolve

mutual

/-- Expressions declare nothing. -/
theorem leads_expr (context : ResolveContext) (scopes : List LocalScope) :
    ∀ e : Expr, Leads (expr context e) scopes scopes
  | .literal _ => .nothing scopes
  | .grouping inner => leads_expr context scopes inner
  | .unary _ _ operand => leads_expr context scopes operand
  | .binary _ _ left right =>
    (leads_expr context scopes left).andThen (leads_expr context scopes right)
  | .logical _ _ left right =>
    (leads_expr context scopes left).andThen (leads_expr context scopes right)
  | .variable v => .readVariable v scopes
  | .assign target value =>
    (leads_expr context scopes value).andThen (.file target.id target.name.text scopes)
  | .call callee arguments _ =>
    (leads_expr context scopes callee).andThen (leads_exprs context scopes arguments)
  | .get object _ => leads_expr context scopes object
  | .set object _ value =>
    (leads_expr context scopes value).andThen (leads_expr context scopes object)
  | .this id line => by
    rw [expr]
    split
    · exact .report _ _ scopes
    · exact .file id "this" scopes
    · exact .file id "this" scopes
  | .super id line _ => by
    rw [expr]
    split
    · exact .report _ _ scopes
    · exact .report _ _ scopes
    · exact .file id "super" scopes
  | .list _ elements => leads_exprs context scopes elements

theorem leads_exprs (context : ResolveContext) (scopes : List LocalScope) :
    ∀ es : List Expr, Leads (exprs context es) scopes scopes
  | [] => .nothing scopes
  | e :: es => (leads_expr context scopes e).andThen (leads_exprs context scopes es)

end

theorem leads_optionalExpr (context : ResolveContext) (scopes : List LocalScope)
    (e : Option Expr) : Leads (optionalExpr context e) scopes scopes := by
  cases e with
  | none => exact .nothing scopes
  | some e => exact leads_expr context scopes e

/-- The parameters of a function are entered in its scope. -/
theorem leads_params (names : List Name) (scopes : List LocalScope) :
    Leads (params names) scopes (enterAll (names.map Name.text) scopes) := by
  induction names generalizing scopes with
  | nil => exact .nothing scopes
  | cons name rest ih => exact .declare_define (ih (enterAll [name.text] scopes))

/-- Behind a superclass there is the scope of `super`. -/
theorem leads_superclass (context : ResolveContext) (name : Name) (parent : Option Variable)
    (scopes : List LocalScope) :
    Leads (superclass context name parent) scopes
      (if parent.isSome then enterAll ["super"] (.empty :: scopes) else scopes) := by
  cases parent with
  | none => exact .nothing scopes
  | some parent =>
    refine .checked ?_
    exact (leads_expr _ scopes (.variable parent)).andThen
      ((Leads.pushScope scopes).andThen (.bind "super" true (.empty :: scopes)))

mutual

/-- A statement enters the names that it declares in the innermost scope, and that is all that can
be seen of it in the scopes. -/
theorem leads_stmt (context : ResolveContext) (scopes : List LocalScope) :
    ∀ s : Stmt, Leads (stmt context s) scopes (enterAll s.declares scopes)
  | .print _ value => leads_expr context scopes value
  | .expression value => leads_expr context scopes value
  | .varDecl name initializer => by
    have ready := Leads.define name (enter name.text false scopes)
    rw [show enterAll [name.text] (enter name.text false scopes) = enterAll [name.text] scopes from
      enter_enter name.text false true scopes] at ready
    exact (Leads.declare name scopes).andThen ((leads_optionalExpr context _ initializer).andThen
      ready)
  | .block body =>
    (Leads.pushScope scopes).andThen (leads_stmts context (.empty :: scopes) body).inside
  | .ifElse condition thenBranch elseBranch => by
    rw [Stmt.declares, enterAll_append]
    exact (leads_expr context scopes condition).andThen
      ((leads_stmt context scopes thenBranch).andThen (leads_optionalStmt context _ elseBranch))
  | .whileLoop condition body =>
    (leads_expr context scopes condition).andThen (leads_stmt context scopes body)
  | .forEach _ name iterable body => by
    refine (leads_expr context scopes iterable).andThen ((Leads.pushScope scopes).andThen ?_)
    exact .declare_define (leads_stmt context (enterAll [name.text] (.empty :: scopes)) body).inside
  | .funDecl declaration =>
    .declare_define (leads_function _ (enterAll [declaration.name.text] scopes) declaration)
  | .ret line value => .checked (.checked (leads_optionalExpr context scopes value))
  | .classDecl name parent methods => by
    let named := enterAll [name.text] scopes
    refine .declare_define ((leads_superclass context name parent named).andThen ?_)
    refine (Leads.pushScope _).andThen ((Leads.bind "this" true _).andThen ?_)
    refine (leads_methodDecls _ _ methods).andThen ?_
    -- A class with a superclass has two scopes to close.
    cases parent with
    | none => exact Leads.popScope (enterAll ["this"] (.empty :: named))
    | some parent =>
      let derived := enterAll ["super"] (.empty :: named)
      exact (Leads.popScope (enterAll ["this"] (.empty :: derived))).andThen (.popScope derived)

theorem leads_optionalStmt (context : ResolveContext) (scopes : List LocalScope) :
    ∀ s : Option Stmt,
      Leads (optionalStmt context s) scopes (enterAll (Stmt.optionalDeclares s) scopes)
  | none => .nothing scopes
  | some s => leads_stmt context scopes s

/-- Each statement enters its names, for those behind it. -/
theorem leads_stmts (context : ResolveContext) (scopes : List LocalScope) :
    ∀ body : List Stmt, Leads (stmts context body) scopes (enterAll (Stmt.allDeclare body) scopes)
  | [] => .nothing scopes
  | s :: rest => by
    rw [Stmt.allDeclare, List.flatMap_cons, enterAll_append]
    exact (leads_stmt context scopes s).andThen (leads_stmts context _ rest)

/-- The names of a function are gone behind it. -/
theorem leads_function (context : ResolveContext) (scopes : List LocalScope) :
    ∀ declaration : FunDecl, Leads (function context declaration) scopes scopes
  | ⟨_, names, body⟩ => by
    have params := leads_params names (.empty :: scopes)
    have whole := params.andThen (leads_stmts context _ body)
    rw [← enterAll_append] at whole
    have closed := whole.inside
    rw [bind_assoc] at closed
    exact (Leads.pushScope scopes).andThen closed

/-- The names of methods are not entered anywhere. -/
theorem leads_methodDecls (context : ResolveContext) (scopes : List LocalScope) :
    ∀ methods : List FunDecl, Leads (methodDecls context methods) scopes scopes
  | [] => .nothing scopes
  | method :: rest =>
    (leads_function _ scopes method).andThen (leads_methodDecls context scopes rest)

end

/-- Top-level code has no scope before it and none behind it. -/
theorem leads_program (program : List Stmt) : Leads (stmts ⟨.none, .none⟩ program) [] [] := by
  have leads := leads_stmts ⟨.none, .none⟩ [] program
  rwa [enterAll_nil] at leads

end Resolve

/-! ## 4. Programs one after the other

Top-level code leaves no scope behind, so the second program is walked over as if it were alone. -/

/-- The static errors of a program, in the order of the walk. -/
def staticErrors (program : List Stmt) : List ResolutionError :=
  match resolve program with
  | .ok _ => []
  | .error errors => errors

/-- The errors of a program are those that the walk over it ends with. -/
theorem staticErrors_eq (program : List Stmt) :
    staticErrors program = (Resolve.finish program).errors := by
  have whole : resolve program = if (Resolve.finish program).errors.isEmpty then
    .ok (Resolve.finish program).resolution else .error (Resolve.finish program).errors := rfl
  rw [staticErrors, whole]
  by_cases clean : (Resolve.finish program).errors.isEmpty = true
  · rw [if_pos clean]
    exact (List.isEmpty_iff.1 clean).symm
  · rw [if_neg clean]

namespace Resolution

/-- What is filed last is filed on top. -/
theorem fileAll_append_singleton (filed : List (Id × Nat)) (entry : Id × Nat)
    (resolution : Resolution) :
    resolution.fileAll (filed ++ [entry]) = (resolution.fileAll filed).insert entry.1 entry.2 :=
  List.foldl_append

/-- Hops that are filed one after the other are added to those that are there. -/
theorem hops_fileAll (filed : List (Id × Nat)) (resolution : Resolution) (id : Id) :
    (resolution.fileAll filed).hops[id]? = (resolution.absorb (empty.fileAll filed)).hops[id]? := by
  rw [hops_absorb]
  induction filed using List.reverseRecOn with
  | nil =>
    have bare : (empty.fileAll []).hops[id]? = none := Std.TreeMap.getElem?_emptyc
    rw [bare, Option.none_or]
    rfl
  | append_singleton filed entry ih =>
    rw [fileAll_append_singleton, fileAll_append_singleton, hops_insert, hops_insert, ih]
    by_cases here : entry.1 = id
    · rw [if_pos here, if_pos here, Option.some_or]
    · rw [if_neg here, if_neg here]

/-- What a resolution lists is what it has filed. -/
theorem mem_toList {resolution : Resolution} {entry : Id × Nat} :
    entry ∈ resolution.toList ↔ resolution.hops[entry.1]? = some entry.2 :=
  Std.TreeMap.mem_toList_iff_getElem?_eq_some

theorem nodup_toList (resolution : Resolution) : resolution.toList.Nodup := by
  refine Std.TreeMap.distinct_keys_toList.imp fun {entry other} different same => ?_
  exact different (same ▸ Std.ReflCmp.compare_self)

/-- Where no id is in both of two resolutions, one is added to the other entry by entry. -/
theorem toList_perm_append {both first second : Resolution}
    (found : ∀ id : Id, both.hops[id]? = (first.absorb second).hops[id]?)
    (apart : ∀ id : Id, first.hops[id]? = none ∨ second.hops[id]? = none) :
    both.toList.Perm (first.toList ++ second.toList) := by
  have distinct : (first.toList ++ second.toList).Nodup := by
    refine List.nodup_append.2 ⟨nodup_toList first, nodup_toList second, ?_⟩
    rintro entry mem _ mem' rfl
    rcases apart entry.1 with none | none
    · cases none.symm.trans (mem_toList.1 mem)
    · cases none.symm.trans (mem_toList.1 mem')
  rw [List.perm_ext_iff_of_nodup (nodup_toList both) distinct]
  rintro ⟨id, hops⟩
  rw [List.mem_append, mem_toList, mem_toList, mem_toList, found id, hops_absorb]
  rcases apart id with none | none
  · simp [none]
  · simp [none]

/-- Only the nodes of a program have hops. -/
theorem mem_idsAll_of_hops {program : List Stmt} {resolution : Resolution}
    (resolved : resolve program = .ok resolution) {id : Id} {hops : Nat}
    (found : resolution.hops[id]? = some hops) : id ∈ Stmt.idsAll program := by
  obtain ⟨clean, rfl⟩ := resolve_eq_ok.1 resolved
  obtain ⟨errors, files⟩ := Resolve.finish_eq program
  by_contra foreign
  rw [← Site.ids_ofProgram] at foreign
  have global := Site.binding_fileFrom_of_notMem foreign [] .empty
  rw [← files (errors.symm.trans clean), binding_empty, binding, found] at global
  cases global

end Resolution

/-- The walk over two programs is the walk over the first and then over the second. -/
theorem Resolve.stmts_append (context : ResolveContext) (first second : List Stmt) :
    stmts context (first ++ second) = (do stmts context first; stmts context second) := by
  induction first with
  | nil => rfl
  | cons s rest ih => rw [List.cons_append, stmts, stmts, ih, bind_assoc]

/-- Behind a program, the walk files and reports what it does over the next one alone. -/
theorem Resolve.finish_append (first second : List Stmt) :
    (finish (first ++ second)).errors = (finish first).errors ++ (finish second).errors ∧
    ∀ id : Id, (finish (first ++ second)).resolution.hops[id]? =
      ((finish first).resolution.absorb (finish second).resolution).hops[id]? := by
  obtain ⟨filed, new, leads⟩ := leads_program first
  obtain ⟨filed', new', leads'⟩ := leads_program second
  have before : finish first = ⟨[], Resolution.empty.fileAll filed, new⟩ := leads .empty []
  have alone : finish second = ⟨[], Resolution.empty.fileAll filed', new'⟩ := leads' .empty []
  have both : finish (first ++ second) =
      ⟨[], (Resolution.empty.fileAll filed).fileAll filed', new ++ new'⟩ := by
    rw [finish, stmts_append]
    change ((stmts ⟨.none, .none⟩ second).run (finish first)).2 = _
    rw [before]
    exact leads' _ _
  rw [before, alone, both]
  exact ⟨rfl, fun id => Resolution.hops_fileAll filed' _ id⟩

/-- **The resolution of two programs is that of the first one with that of the second one
added.** -/
theorem resolve_append {first second : List Stmt} {r r' : Resolution}
    (resolved : resolve first = .ok r) (resolved' : resolve second = .ok r') :
    ∃ both, resolve (first ++ second) = .ok both ∧
      ∀ id : Id, both.hops[id]? = (r.absorb r').hops[id]? := by
  obtain ⟨errors, hops⟩ := Resolve.finish_append first second
  obtain ⟨clean, rfl⟩ := resolve_eq_ok.1 resolved
  obtain ⟨clean', rfl⟩ := resolve_eq_ok.1 resolved'
  rw [clean, clean', List.append_nil] at errors
  exact ⟨_, resolve_eq_ok.2 ⟨errors, rfl⟩, hops⟩

/-- **The walk of the resolver is balanced, and top-level statements are independent.**  Over any
statement, from any place and with anything found before, the walk ends in the function and the
class in which it began and under as many scopes.  The scopes are the same but for the innermost
one, and this holds the same for every name that the statement does not itself declare; the
names that it declares are ready.  Over an expression, nothing changes in the scopes.

So the static errors of two programs, one behind the other, are those of the first and then those of
the second, each resolved by itself; and where the nodes of the two have different ids and there are
no errors, the resolution is the union of the two resolutions. -/
theorem resolver_is_balanced :
    (∀ (s : Stmt) (walk : Resolver),
      let behind := ((Resolver.stmt s).run walk).2
      behind.context = walk.context ∧
      behind.found.scopes.length = walk.found.scopes.length ∧
      behind.found.scopes.tail = walk.found.scopes.tail ∧
      ∀ scope ∈ walk.found.scopes.head?, ∃ scope' ∈ behind.found.scopes.head?, ∀ name,
        scope'.get? name = if name ∈ s.declares then some true else scope.get? name) ∧
    (∀ (e : Expr) (walk : Resolver),
      let behind := ((Resolver.expr e).run walk).2
      behind.context = walk.context ∧ behind.found.scopes = walk.found.scopes) ∧
    (∀ program, Resolver.resolve program = resolve program) ∧
    (∀ p q, staticErrors (p ++ q) = staticErrors p ++ staticErrors q) ∧
    (∀ p q, (∀ id ∈ Stmt.idsAll p, id ∉ Stmt.idsAll q) → staticErrors (p ++ q) = [] →
      ∃ first second both, resolve p = .ok first ∧ resolve q = .ok second ∧
        resolve (p ++ q) = .ok both ∧ both.toList.Perm (first.toList ++ second.toList)) := by
  refine ⟨fun s walk => ?_, fun e walk => ?_, Resolver.resolve_eq, fun p q => ?_,
    fun p q distinct clean => ?_⟩
  · have performed := Resolver.performs_stmt walk.context s walk.found
    obtain ⟨filed, new, leads⟩ := Resolve.leads_stmt walk.context walk.found.scopes s
    have scopes : ((Resolver.stmt s).run walk).2.found.scopes =
        enterAll s.declares walk.found.scopes := by
      rw [performed, leads walk.found.resolution walk.found.errors]
    refine ⟨by rw [performed], by rw [scopes, length_enterAll], by rw [scopes, tail_enterAll], ?_⟩
    intro scope innermost
    rw [scopes]
    obtain ⟨outer, stack⟩ := List.head?_eq_some_iff.1 innermost
    rw [stack, enterAll_cons]
    exact ⟨_, rfl, Bindings.get?_foldl_insert s.declares true scope⟩
  · have performed := Resolver.performs_expr walk.context e walk.found
    obtain ⟨filed, new, leads⟩ := Resolve.leads_expr walk.context walk.found.scopes e
    refine ⟨by rw [performed], ?_⟩
    rw [performed, leads walk.found.resolution walk.found.errors]
  · rw [staticErrors_eq, staticErrors_eq, staticErrors_eq]
    exact (Resolve.finish_append p q).1
  · rw [staticErrors_eq, (Resolve.finish_append p q).1] at clean
    obtain ⟨clean₁, clean₂⟩ := List.append_eq_nil_iff.1 clean
    have resolved : resolve p = .ok (Resolve.finish p).resolution := resolve_eq_ok.2 ⟨clean₁, rfl⟩
    have resolved' : resolve q = .ok (Resolve.finish q).resolution := resolve_eq_ok.2 ⟨clean₂, rfl⟩
    obtain ⟨both, resolves, joined⟩ := resolve_append resolved resolved'
    refine ⟨_, _, both, resolved, resolved', resolves,
      Resolution.toList_perm_append joined fun id => ?_⟩
    by_contra! found
    obtain ⟨hops, found₁⟩ := Option.ne_none_iff_exists'.1 found.1
    obtain ⟨hops', found₂⟩ := Option.ne_none_iff_exists'.1 found.2
    exact distinct id (Resolution.mem_idsAll_of_hops resolved found₁)
      (Resolution.mem_idsAll_of_hops resolved' found₂)

namespace Balance

/-- `class B < A { m() { super.m(); } }` -/
def subclass : List Stmt :=
  [.classDecl ⟨"B", 1⟩ (some ⟨0, ⟨"A", 1⟩⟩)
    [⟨⟨"m", 1⟩, [], [.expression (.call (.super 1 1 ⟨"m", 1⟩) [] 1)]⟩]]

/-- `{ var a; print a; }` -/
def block : List Stmt :=
  [.block [.varDecl ⟨"a", 2⟩ none, .print 2 (.variable ⟨2, ⟨"a", 2⟩⟩)]]

/-- The `super` in the method of a subclass is two scopes out, and this does not move the variable
of the block behind the class. -/
theorem subclass_and_block_resolve_apart :
    (∀ id ∈ Stmt.idsAll subclass, id ∉ Stmt.idsAll block) ∧ staticErrors (subclass ++ block) = [] ∧
      ∃ first second both, resolve subclass = .ok first ∧ resolve block = .ok second ∧
        resolve (subclass ++ block) = .ok both ∧
        both.toList.Perm (first.toList ++ second.toList) := by
  have apart : ∀ id ∈ Stmt.idsAll subclass, id ∉ Stmt.idsAll block := by decide
  have clean : staticErrors (subclass ++ block) = [] := by decide
  obtain ⟨-, -, -, -, union⟩ := resolver_is_balanced
  exact ⟨apart, clean, union subclass block apart clean⟩

end Balance

end Lox
