/-
# Another name for a local variable

A local variable is known by its region and its name.  `LocalRenaming.program` gives it another
name: at its declaration, and at the nodes that the resolution leads from to its region.  Functions
and classes keep their names.

* The sites of the program are the same but for the names (`LocalRenaming.sites_program`), so it is
  accepted again and has the same resolution if the new name is nowhere in the program
  (`LocalRenaming.resolve_program`).
* The program is related to the old one as evaluation needs it (`LocalRenaming.renamed_program`).
-/
import Lox.Proofs.Scoping.Declaration
import Lox.Proofs.Syntax.Renaming

namespace Lox

/-- The region in which the name at a node is bound, if it is local. -/
def Resolution.region? (r : Resolution) (id : Id) (regions : List Region) : Option Region :=
  match r.binding id with
  | .local hops => regions[hops]?
  | .global => none

/-- Another name for a variable in a region of a program that has been resolved. -/
structure LocalRenaming extends Renaming where
  scope : Region
  resolution : Resolution

/-- The region that the name at a site belongs to. -/
def Site.home? (r : Resolution) (site : Site) : Option Region :=
  match site.kind with
  | .declares => site.regions.head?
  | .returns _ => none
  | .reads id | .inherits id _ | .writes id | .this id | .super id => r.region? id site.regions

/-- The class whose superclass is named. -/
def SiteKind.className? : SiteKind → Option String
  | .inherits _ className => some className
  | _ => none

/-- A name is nowhere at a site: neither itself, nor as that of the `var` or the class whose
initializer or superclass it is in. -/
structure Site.Lacks (site : Site) (name : String) : Prop where
  text : site.name.text ≠ name
  initializes : site.initializes ≠ some name
  inherits : site.kind.className? ≠ some name

instance (site : Site) (name : String) : Decidable (site.Lacks name) :=
  decidable_of_iff (site.name.text ≠ name ∧ site.initializes ≠ some name ∧
    site.kind.className? ≠ some name) ⟨fun h => ⟨h.1, h.2.1, h.2.2⟩, fun h => ⟨h.1, h.2, h.3⟩⟩

namespace LocalRenaming

/-! ## 1. The new program

The renaming goes down the tree with the regions around, as the sites do.  At a node it asks the
resolution for the region of the name. -/

section New

variable (χ : LocalRenaming)

/-- What becomes of a name that belongs to a region. -/
def text (home : Option Region) (text : String) : String :=
  if home = some χ.scope ∧ text = χ.old then χ.new else text

def name (home : Option Region) (name : Name) : Name := { name with text := χ.text home name.text }

def occurrence (regions : List Region) (v : Variable) : Variable :=
  { v with name := χ.name (χ.resolution.region? v.id regions) v.name }

mutual

/-- What becomes of an expression. -/
def expr (regions : List Region) : Expr → Expr
  | .literal value => .literal value
  | .grouping inner => .grouping (expr regions inner)
  | .unary op line operand => .unary op line (expr regions operand)
  | .binary op line left right => .binary op line (expr regions left) (expr regions right)
  | .logical op line left right => .logical op line (expr regions left) (expr regions right)
  | .variable v => .variable (χ.occurrence regions v)
  | .assign target value => .assign (χ.occurrence regions target) (expr regions value)
  | .call callee arguments line => .call (expr regions callee) (exprs regions arguments) line
  | .get object property => .get (expr regions object) property
  | .set object property value => .set (expr regions object) property (expr regions value)
  | .this id line => .this id line
  | .super id line method => .super id line method
  | .list line elements => .list line (exprs regions elements)

/-- What becomes of expressions. -/
def exprs (regions : List Region) : List Expr → List Expr
  | [] => []
  | e :: es => expr regions e :: exprs regions es

end

mutual

/-- What becomes of a statement. -/
def stmt (address : TreeAddress) (regions : List Region) : Stmt → Stmt
  | .print line value => .print line (χ.expr regions value)
  | .expression value => .expression (χ.expr regions value)
  | .varDecl name initializer =>
    .varDecl (χ.name regions.head? name) (initializer.map (χ.expr regions))
  | .block body => .block (stmts address 0 (⟨.block, address⟩ :: regions) body)
  | .ifElse condition thenBranch elseBranch =>
    .ifElse (χ.expr regions condition) (stmt (0 :: address) regions thenBranch)
      (optionalStmt (1 :: address) regions elseBranch)
  | .whileLoop condition body =>
    .whileLoop (χ.expr regions condition) (stmt (0 :: address) regions body)
  | .forEach line name iterable body =>
    .forEach line (χ.name (some ⟨.iteration, address⟩) name) (χ.expr regions iterable)
      (stmt (0 :: address) (⟨.iteration, address⟩ :: regions) body)
  | .funDecl declaration => .funDecl (function .function address regions declaration)
  | .ret line value => .ret line (value.map (χ.expr regions))
  | .classDecl name superclass methods =>
    .classDecl name (superclass.map (χ.occurrence regions))
      (methodDecls address 0 (Site.classRegions address regions superclass) methods)

/-- What becomes of a statement, where there may be none. -/
def optionalStmt (address : TreeAddress) (regions : List Region) : Option Stmt → Option Stmt
  | none => none
  | some s => some (stmt address regions s)

/-- What becomes of statements, from the one with the given index. -/
def stmts (address : TreeAddress) (index : Nat) (regions : List Region) : List Stmt → List Stmt
  | [] => []
  | s :: rest => stmt (index :: address) regions s :: stmts address (index + 1) regions rest

/-- What becomes of a function. -/
def function (kind : RegionKind) (address : TreeAddress) (regions : List Region) :
    FunDecl → FunDecl
  | ⟨name, params, body⟩ =>
    ⟨name, params.map (χ.name (some ⟨kind, address⟩)),
      stmts address 0 (⟨kind, address⟩ :: regions) body⟩

/-- What becomes of the methods of a class, from the one with the given index. -/
def methodDecls (address : TreeAddress) (index : Nat) (regions : List Region) :
    List FunDecl → List FunDecl
  | [] => []
  | method :: rest =>
    function (.method method.isInitializer) (index :: address) regions method ::
      methodDecls address (index + 1) regions rest

end

/-- What becomes of a program. -/
def program (program : List Stmt) : List Stmt := χ.stmts [] 0 [] program

/-- What becomes of a site. -/
def site (site : Site) : Site :=
  { site with
    name := χ.name (site.home? χ.resolution) site.name
    initializes := site.initializes.map (χ.text site.regions.head?) }

/-- A function or class that does not have the name of the variable in its region. -/
def Spares (declaration : Declaration) : Prop :=
  declaration.sort = .definition → declaration.regions.head? = some χ.scope →
    declaration.name.text ≠ χ.old

end New

/-! ## 2. Sites

The new program has the sites of the old one with new names.  This is where it is used that
functions and classes keep theirs. -/

section Sites

variable {χ : LocalRenaming}

/-- Other names stay. -/
theorem text_of_ne {home : Option Region} {text : String} (h : text ≠ χ.old) :
    χ.text home text = text :=
  if_neg fun same => h same.2

theorem name_of_ne {home : Option Region} {name : Name} (h : name.text ≠ χ.old) :
    χ.name home name = name := by
  rw [LocalRenaming.name, text_of_ne h]

/-- A name that belongs to no region stays. -/
theorem text_none (text : String) : χ.text none text = text := if_neg fun both => by cases both.1

theorem name_none (name : Name) : χ.name none name = name := by
  rw [LocalRenaming.name, text_none]

/-- The declaration of a function or a class is not changed. -/
theorem name_of_spares {name : Name} {regions : List Region}
    (spared : χ.Spares ⟨.definition, name, regions⟩) : χ.name regions.head? name = name := by
  rw [LocalRenaming.name, text, if_neg fun same => spared rfl same.1 same.2]

/-- Methods keep their names, so an initializer stays one. -/
theorem isInitializer_function (kind : RegionKind) (address : TreeAddress) (regions : List Region)
    (d : FunDecl) : (χ.function kind address regions d).isInitializer = d.isInitializer := by
  cases d
  rfl

theorem name_function (kind : RegionKind) (address : TreeAddress) (regions : List Region)
    (d : FunDecl) : (χ.function kind address regions d).name = d.name := by
  cases d
  rfl

/-- The regions of a class depend on whether there is a superclass, not on its name. -/
theorem classRegions_map (address : TreeAddress) (regions : List Region)
    (superclass : Option Variable) (f : Variable → Variable) :
    Site.classRegions address regions (superclass.map f) =
      Site.classRegions address regions superclass := by
  cases superclass <;> rfl

/-- The parameters of a function belong to its region. -/
theorem sites_params (kind : RegionKind) (address : TreeAddress) (regions : List Region)
    (params : List Name) :
    (params.map (χ.name (some ⟨kind, address⟩))).map
        (Site.declaring (⟨kind, address⟩ :: regions)) =
      (params.map (Site.declaring (⟨kind, address⟩ :: regions))).map χ.site := by
  rw [List.map_map, List.map_map]
  rfl

/-- The superclass is a node like others, and its class keeps its name. -/
theorem sites_superclass (regions : List Region) (name : Name) (superclass : Option Variable) :
    Site.ofSuperclass regions name (superclass.map (χ.occurrence regions)) =
      (Site.ofSuperclass regions name superclass).map χ.site := by
  cases superclass <;> rfl

mutual

/-- The sites of an expression are renamed one by one.  A pending initializer is that of a variable
whose name changes with it. -/
theorem sites_expr (ordinary : Ordinary χ.old) (regions : List Region) (pending : Pending) :
    ∀ e : Expr, Site.ofExpr regions (pending.map (χ.text regions.head?)) (χ.expr regions e) =
      (Site.ofExpr regions pending e).map χ.site
  | .literal _ => rfl
  | .grouping inner => sites_expr ordinary regions pending inner
  | .unary _ _ operand => sites_expr ordinary regions pending operand
  | .binary _ _ left right => by
    rw [expr, Site.ofExpr, Site.ofExpr, List.map_append, sites_expr ordinary regions pending left,
      sites_expr ordinary regions pending right]
  | .logical _ _ left right => by
    rw [expr, Site.ofExpr, Site.ofExpr, List.map_append, sites_expr ordinary regions pending left,
      sites_expr ordinary regions pending right]
  | .variable _ => rfl
  | .assign target value => by
    rw [expr, Site.ofExpr, Site.ofExpr, List.map_append, sites_expr ordinary regions pending value]
    rfl
  | .call callee arguments _ => by
    rw [expr, Site.ofExpr, Site.ofExpr, List.map_append, sites_expr ordinary regions pending callee,
      sites_exprs ordinary regions pending arguments]
  | .get object _ => sites_expr ordinary regions pending object
  | .set object _ value => by
    rw [expr, Site.ofExpr, Site.ofExpr, List.map_append, sites_expr ordinary regions pending value,
      sites_expr ordinary regions pending object]
  | .this id line => by
    rw [expr, Site.ofExpr, Site.ofExpr, List.map_singleton, site, name_of_ne ordinary.1.symm]
  | .super id line _ => by
    rw [expr, Site.ofExpr, Site.ofExpr, List.map_singleton, site, name_of_ne ordinary.2.symm]
  | .list _ elements => sites_exprs ordinary regions pending elements

theorem sites_exprs (ordinary : Ordinary χ.old) (regions : List Region) (pending : Pending) :
    ∀ es : List Expr,
      Site.ofExprs regions (pending.map (χ.text regions.head?)) (χ.exprs regions es) =
        (Site.ofExprs regions pending es).map χ.site
  | [] => rfl
  | e :: es => by
    rw [exprs, Site.ofExprs, Site.ofExprs, List.map_append, sites_expr ordinary regions pending e,
      sites_exprs ordinary regions pending es]

end

theorem sites_optional (ordinary : Ordinary χ.old) (regions : List Region) (pending : Pending)
    (e : Option Expr) :
    Site.ofOptional regions (pending.map (χ.text regions.head?)) (e.map (χ.expr regions)) =
      (Site.ofOptional regions pending e).map χ.site := by
  cases e with
  | none => rfl
  | some e => exact sites_expr ordinary regions pending e

mutual

/-- The sites of a statement are renamed one by one, if its functions and classes do not have the
name in question. -/
theorem sites_stmt (ordinary : Ordinary χ.old) (address : TreeAddress) (regions : List Region) :
    ∀ s : Stmt, (∀ declaration ∈ Declaration.ofStmt address regions s, χ.Spares declaration) →
      Site.ofStmt address regions (χ.stmt address regions s) =
        (Site.ofStmt address regions s).map χ.site
  | .print _ value, _ => sites_expr ordinary regions none value
  | .expression value, _ => sites_expr ordinary regions none value
  | .varDecl name initializer, _ =>
    congrArg (Site.declaring regions (χ.name regions.head? name) :: ·)
      (sites_optional ordinary regions (some name.text) initializer)
  | .block body, spares => sites_stmts ordinary address 0 _ body spares
  | .ifElse condition thenBranch elseBranch, spares => by
    obtain ⟨first, second⟩ := List.forall_mem_append.1 spares
    rw [stmt, Site.ofStmt, Site.ofStmt, List.map_append, List.map_append,
      ← sites_expr ordinary regions none condition,
      ← sites_stmt ordinary (0 :: address) regions thenBranch first,
      ← sites_optionalStmt ordinary (1 :: address) regions elseBranch second]
    rfl
  | .whileLoop condition body, spares => by
    rw [stmt, Site.ofStmt, Site.ofStmt, List.map_append,
      ← sites_expr ordinary regions none condition,
      ← sites_stmt ordinary (0 :: address) regions body spares]
    rfl
  | .forEach _ name iterable body, spares => by
    obtain ⟨-, inside⟩ := List.forall_mem_cons.1 spares
    rw [stmt, Site.ofStmt, Site.ofStmt, List.map_append, List.map_cons,
      ← sites_expr ordinary regions none iterable,
      ← sites_stmt ordinary (0 :: address) (⟨.iteration, address⟩ :: regions) body inside]
    rfl
  | .funDecl declaration, spares => by
    obtain ⟨here, inside⟩ := List.forall_mem_cons.1 spares
    rw [stmt, Site.ofStmt, Site.ofStmt, List.map_cons, name_function,
      ← sites_function ordinary .function address regions declaration inside]
    exact congrArg (Site.declaring regions · :: _) (name_of_spares here).symm
  | .ret line value, _ => by
    rw [stmt, Site.ofStmt, Site.ofStmt, List.map_cons, ← sites_optional ordinary regions none value,
      Option.isSome_map, site, Site.home?, name_none]
    rfl
  | .classDecl name superclass methods, spares => by
    obtain ⟨here, inside⟩ := List.forall_mem_cons.1 spares
    rw [stmt, Site.ofStmt, Site.ofStmt, List.map_append, List.map_cons, sites_superclass,
      classRegions_map, ← sites_methodDecls ordinary address 0 _ methods inside]
    exact congrArg (Site.declaring regions · :: _ ++ _) (name_of_spares here).symm

theorem sites_optionalStmt (ordinary : Ordinary χ.old) (address : TreeAddress)
    (regions : List Region) : ∀ s : Option Stmt,
    (∀ declaration ∈ Declaration.ofOptionalStmt address regions s, χ.Spares declaration) →
      Site.ofOptionalStmt address regions (χ.optionalStmt address regions s) =
        (Site.ofOptionalStmt address regions s).map χ.site
  | none, _ => rfl
  | some s, spares => sites_stmt ordinary address regions s spares

theorem sites_stmts (ordinary : Ordinary χ.old) (address : TreeAddress) (index : Nat)
    (regions : List Region) :
    ∀ body : List Stmt,
      (∀ declaration ∈ Declaration.ofStmts address index regions body, χ.Spares declaration) →
        Site.ofStmts address index regions (χ.stmts address index regions body) =
          (Site.ofStmts address index regions body).map χ.site
  | [], _ => rfl
  | s :: rest, spares => by
    obtain ⟨first, others⟩ := List.forall_mem_append.1 spares
    rw [stmts, Site.ofStmts, Site.ofStmts, List.map_append,
      ← sites_stmt ordinary (index :: address) regions s first,
      ← sites_stmts ordinary address (index + 1) regions rest others]

/-- The parameters and the body of a function, in a region of its own. -/
theorem sites_function (ordinary : Ordinary χ.old) (kind : RegionKind) (address : TreeAddress)
    (regions : List Region) :
    ∀ d : FunDecl,
      (∀ declaration ∈ Declaration.ofFunction kind address regions d, χ.Spares declaration) →
        Site.ofFunction kind address regions (χ.function kind address regions d) =
          (Site.ofFunction kind address regions d).map χ.site
  | ⟨_, params, body⟩, spares => by
    obtain ⟨-, inside⟩ := List.forall_mem_append.1 spares
    rw [function, Site.ofFunction, Site.ofFunction, List.map_append, sites_params,
      ← sites_stmts ordinary address 0 (⟨kind, address⟩ :: regions) body inside]

theorem sites_methodDecls (ordinary : Ordinary χ.old) (address : TreeAddress) (index : Nat)
    (regions : List Region) :
    ∀ methods : List FunDecl,
      (∀ declaration ∈ Declaration.ofMethods address index regions methods,
        χ.Spares declaration) →
        Site.ofMethods address index regions (χ.methodDecls address index regions methods) =
          (Site.ofMethods address index regions methods).map χ.site
  | [], _ => rfl
  | method :: rest, spares => by
    obtain ⟨first, others⟩ := List.forall_mem_append.1 spares
    rw [methodDecls, Site.ofMethods, Site.ofMethods, List.map_append, isInitializer_function,
      ← sites_function ordinary _ (index :: address) regions method first,
      ← sites_methodDecls ordinary address (index + 1) regions rest others]

end

end Sites

/-! ## 3. The resolution

The new name is nowhere in the program, so no declaration hides another one after renaming that did
not before. -/

/-- Whether the name of the variable changes in a region. -/
def changes (χ : LocalRenaming) (home : Option Region) : Bool := home = some χ.scope

section Resolution

variable {χ : LocalRenaming}

/-- The text of a name before and after, as the relation of the two programs asks for it. -/
theorem names_text (home : Option Region) {text : String} (fresh : text ≠ χ.new) :
    χ.Names (χ.changes home) text (χ.text home text) := by
  unfold changes LocalRenaming.text
  by_cases here : home = some χ.scope
  · rw [decide_eq_true here]
    by_cases old : text = χ.old
    · rw [if_pos ⟨here, old⟩, old]
      exact .renamed
    · rw [if_neg fun both => old both.2]
      exact .other old fresh
  · rw [decide_eq_false here, if_neg fun both => here both.1]
    exact .unmarked _

/-- Names that are not the new one stay apart, wherever they are. -/
theorem text_inj {home home' : Option Region} {text text' : String} (ne : text ≠ χ.new)
    (ne' : text' ≠ χ.new) (same : χ.text home text = χ.text home' text') : text = text' := by
  unfold LocalRenaming.text at same
  split at same <;> split at same
  · rename_i old old'
    exact old.2.trans old'.2.symm
  · exact absurd same.symm ne'
  · exact absurd same ne
  · exact same

/-- A name that a region binds by itself, `this` or `super`, is not an ordinary one. -/
theorem bound?_ne {name : String} (ordinary : Ordinary name) (kind : RegionKind) :
    kind.bound? ≠ some name := by
  intro bound
  cases kind with
  | this => exact ordinary.1 (Option.some.inj bound).symm
  | super => exact ordinary.2 (Option.some.inj bound).symm
  | _ => cases bound

/-- `this` and `super` are not changed. -/
theorem bound?_iff (ordinary : χ.Ordinary) (kind : RegionKind) {marked : Bool}
    {text text' : String} (names : χ.Names marked text text') :
    kind.bound? = some text' ↔ kind.bound? = some text := by
  cases kind with
  | this =>
    simp only [RegionKind.bound?, Option.some.injEq]
    exact ((Renaming.Names.this ordinary marked).eq_iff names).symm
  | super =>
    simp only [RegionKind.bound?, Option.some.injEq]
    exact ((Renaming.Names.super ordinary marked).eq_iff names).symm
  | _ => exact iff_of_false (by simp [RegionKind.bound?]) (by simp [RegionKind.bound?])

/-- At a node, the region that a name belongs to is the one that the resolution leads to. -/
theorem home?_of_id? {site : Site} {id : Id} (r : Resolution) (node : site.id? = some id) :
    site.home? r = r.region? id site.regions := by
  unfold Site.id? at node
  unfold Site.home?
  cases kind : site.kind <;> rw [kind] at node <;> cases node <;> rfl

section Earlier

variable {earlier : List Site} (ordinary : χ.Ordinary)
  (fresh : ∀ site ∈ earlier, site.name.text ≠ χ.new)

include ordinary fresh

/-- A region declares what becomes of a name in it if it has declared the name. -/
theorem declares_iff (region : Region) {text text' : String}
    (names : χ.Names (χ.changes (some region)) text text') :
    region.Declares (earlier.map χ.site) text' ↔ region.Declares earlier text := by
  refine or_congr (bound?_iff ordinary region.kind names) ?_
  have same : ∀ site ∈ earlier, site.kind = .declares → site.regions.head? = some region →
      ((χ.site site).name.text = text' ↔ site.name.text = text) := by
    intro site mem kind head
    have here : site.home? χ.resolution = some region := by rw [Site.home?, kind, head]
    have changed := names_text (some region) (fresh site mem)
    rw [← here] at changed
    rw [← here] at names
    exact (changed.eq_iff names).symm
  constructor
  · rintro ⟨_, changed, kind, text, head⟩
    obtain ⟨site, mem, rfl⟩ := List.mem_map.1 changed
    exact ⟨site, mem, kind, (same site mem kind head).1 text, head⟩
  · rintro ⟨site, mem, kind, text, head⟩
    exact ⟨_, List.mem_map_of_mem mem, kind, (same site mem kind head).2 text, head⟩

/-- The new name is declared only for the variable. -/
theorem not_declares_new {region : Region} (other : χ.changes (some region) = false) :
    ¬ region.Declares (earlier.map χ.site) χ.new := by
  have names : χ.Names (χ.changes (some region)) χ.new χ.new := by
    rw [other]
    exact .unmarked _
  rw [declares_iff ordinary fresh region names]
  rintro (bound | ⟨site, mem, -, text, -⟩)
  · exact bound?_ne ordinary.new region.kind bound
  · exact fresh site mem text

/-- The old name is gone from the region of the variable. -/
theorem not_declares_old (ne : χ.old ≠ χ.new) :
    ¬ χ.scope.Declares (earlier.map χ.site) χ.old := by
  rintro (bound | ⟨_, changed, kind, text, head⟩)
  · exact bound?_ne ordinary.old χ.scope.kind bound
  · obtain ⟨site, mem, rfl⟩ := List.mem_map.1 changed
    have here : site.home? χ.resolution = some χ.scope := by
      rw [Site.home?, show site.kind = .declares from kind]
      exact head
    have names := names_text (site.home? χ.resolution) (fresh site mem)
    rw [changes, decide_eq_true here] at names
    exact names.ne_old ne text

/-- No region declares what becomes of a name if it has not declared the name. -/
theorem not_declares {region : Region} {text : String} (ne : text ≠ χ.new)
    (home : Option Region) (absent : ¬ region.Declares earlier text) :
    ¬ region.Declares (earlier.map χ.site) (χ.text home text) := by
  by_cases same : χ.text home text = χ.text (some region) text
  · rwa [same, declares_iff ordinary fresh region (names_text (some region) ne)]
  · have old : text = χ.old := by
      by_contra other
      exact same (by rw [text_of_ne other, text_of_ne other])
    subst old
    by_cases here : some region = some χ.scope
    · obtain rfl := Option.some.inj here
      rw [LocalRenaming.text, if_neg fun both => same (by rw [both.1])]
      exact not_declares_old ordinary fresh ne
    · have inside : home = some χ.scope := by
        by_contra outside
        refine same ?_
        rw [LocalRenaming.text, LocalRenaming.text, if_neg fun both => outside both.1,
          if_neg fun both => here both.1]
      rw [LocalRenaming.text, if_pos ⟨inside, rfl⟩]
      exact not_declares_new ordinary fresh (decide_eq_false here)

/-- The name of a node is declared as many regions out as before. -/
theorem hops?_site {site : Site} (ne : site.name.text ≠ χ.new) {id : Id}
    (node : site.id? = some id)
    (filed : χ.resolution.binding id =
      match site.hops? earlier with
      | some hops => .local hops
      | none => .global) :
    (χ.site site).hops? (earlier.map χ.site) = site.hops? earlier := by
  have home := home?_of_id? χ.resolution node
  unfold Resolution.region? at home
  cases located : site.hops? earlier with
  | none =>
    refine List.findIdx?_eq_none_iff.2 fun region mem => decide_eq_false ?_
    exact not_declares ordinary fresh ne _
      (of_decide_eq_false (List.findIdx?_eq_none_iff.1 located region mem))
  | some hops =>
    rw [filed, located] at home
    obtain ⟨lt, here, nearer⟩ := List.findIdx?_eq_some_iff_getElem.1 located
    refine List.findIdx?_eq_some_iff_getElem.2 ⟨lt, decide_eq_true ?_, fun inner hlt => ?_⟩
    · refine (declares_iff ordinary fresh _ ?_).2 (of_decide_eq_true here)
      have names := names_text (site.home? χ.resolution) ne
      rw [show χ.changes (site.home? χ.resolution) = χ.changes (some site.regions[hops]) by
        rw [home]; exact congrArg χ.changes (List.getElem?_eq_getElem lt)] at names
      exact names
    · have inside : inner < site.regions.length := hlt.trans lt
      have absent : ¬ site.regions[inner].Declares earlier site.name.text := by
        simpa using nearer inner hlt
      rw [Bool.not_eq_true]
      exact decide_eq_false (not_declares ordinary fresh ne _ absent)

/-- Where nothing was wrong, nothing is. -/
theorem violation?_site {site : Site} (lacks : site.Lacks χ.new)
    (fine : site.violation? earlier = none) :
    (χ.site site).violation? (earlier.map χ.site) = none := by
  have of_fine : ∀ {p : Prop} [Decidable p] {cause : ResolutionCause},
      (if p then some cause else none) = none → ¬ p := by
    intro p _ cause none here
    rw [if_pos here] at none
    cases none
  obtain ⟨kind, name, regions, pending⟩ := site
  cases kind with
  | declares =>
    refine if_neg fun twice => ?_
    obtain ⟨region, head, declared⟩ := (Option.any_eq_true _ _).1 twice
    refine not_declares ordinary fresh lacks.text _ ?_ (of_decide_eq_true declared)
    exact fun before => of_fine fine
      ((Option.any_eq_true _ _).2 ⟨region, head, decide_eq_true before⟩)
  | reads id =>
    refine if_neg fun both => ?_
    obtain ⟨var, rfl, same⟩ := Option.map_eq_some_iff.1 both.1
    have other : var ≠ χ.new := fun new => lacks.initializes (congrArg some new)
    exact of_fine fine ⟨congrArg some (text_inj other lacks.text same), both.2⟩
  | inherits id className =>
    refine if_neg fun same => of_fine fine ?_
    have other : className ≠ χ.new := fun new => lacks.inherits (congrArg some new)
    exact text_inj lacks.text other (same.trans (text_none className).symm)
  | writes id => rfl
  | this id => exact fine
  | super id => exact fine
  | returns hasValue => exact fine

end Earlier

/-- Sites that file the same, each behind those before it, file the same together. -/
theorem fileFrom_map {f : Site → Site} (earlier : List Site) {sites : List Site}
    (same : ∀ (index : Nat) (site : Site), sites[index]? = some site → ∀ r,
      (f site).file ((earlier ++ sites.take index).map f) r =
        site.file (earlier ++ sites.take index) r) (r : Resolution) :
    Site.fileFrom (earlier.map f) (sites.map f) r = Site.fileFrom earlier sites r := by
  induction sites generalizing earlier r with
  | nil => rfl
  | cons site rest ih =>
    have first := same 0 site rfl r
    rw [List.take_zero, List.append_nil] at first
    have others := ih (earlier ++ [site]) (fun index other found r => by
      simpa using same (index + 1) other found r) (site.file earlier r)
    rw [List.map_append, List.map_singleton] at others
    rw [List.map_cons, Site.fileFrom, Site.fileFrom, first, others]

/-- **With a new name for a local variable a program has the same resolution.** -/
theorem resolve_program {program : List Stmt} (resolved : resolve program = .ok χ.resolution)
    (distinct : (Stmt.idsAll program).Nodup) (ordinary : χ.Ordinary)
    (spares : ∀ declaration ∈ Declaration.ofProgram program, χ.Spares declaration)
    (lacks : ∀ site ∈ Site.ofProgram program, site.Lacks χ.new) :
    resolve (χ.program program) = .ok χ.resolution := by
  obtain ⟨clean, files⟩ := resolve_eq_ok.1 resolved
  obtain ⟨reported, filed⟩ := Resolve.finish_eq program
  obtain ⟨reported', filed'⟩ := Resolve.finish_eq (χ.program program)
  have sites : Site.ofProgram (χ.program program) = (Site.ofProgram program).map χ.site :=
    sites_stmts ordinary.old [] 0 [] program spares
  have fine : Site.errorsFrom [] (Site.ofProgram program) = [] := reported.symm.trans clean
  have fresh : ∀ index, ∀ site ∈ (Site.ofProgram program).take index, site.name.text ≠ χ.new :=
    fun index site mem => (lacks site (List.mem_of_mem_take mem)).text
  have fine' : Site.errorsFrom [] (Site.ofProgram (χ.program program)) = [] := by
    rw [sites]
    refine (Site.errorsFrom_eq_nil [] _).2 fun index changed found => ?_
    rw [List.getElem?_map, Option.map_eq_some_iff] at found
    obtain ⟨site, found, rfl⟩ := found
    have before := (Site.errorsFrom_eq_nil [] _).1 fine index site found
    rw [List.nil_append] at before ⊢
    rw [← List.map_take]
    exact violation?_site ordinary (fresh index) (lacks site (List.mem_of_getElem? found)) before
  refine resolve_eq_ok.2 ⟨reported'.trans fine', ?_⟩
  rw [filed' fine', ← files, filed fine, sites]
  refine fileFrom_map [] (fun index site found r => ?_) .empty
  rw [List.nil_append, Site.file, Site.file]
  cases node : site.id? with
  | none =>
    rw [show (χ.site site).id? = none from node]
  | some id =>
    rw [show (χ.site site).id? = some id from node,
      hops?_site ordinary (fresh index) (lacks site (List.mem_of_getElem? found)).text node
        (resolve_binding distinct resolved found node)]

end Resolution

/-! ## 4. The relation of the two programs

Evaluation compares scopes, and the marks of the regions around say in which scopes a name is to be
changed. -/

section Related

variable {χ : LocalRenaming} {r : Resolution}

/-- The marks of some regions: that of the variable is marked. -/
def marks (χ : LocalRenaming) (regions : List Region) : Marks :=
  regions.map fun region => χ.changes (some region)

/-- A site without the new name, whose node is bound as in the resolution of the program. -/
structure Suits (χ : LocalRenaming) (r : Resolution) (site : Site) : Prop where
  fresh : site.name.text ≠ χ.new
  binding : ∀ id, site.id? = some id → r.binding id = χ.resolution.binding id

/-- The mark of the innermost region says whether its name changes. -/
theorem headD_marks (regions : List Region) :
    (χ.marks regions).headD false = χ.changes regions.head? := by
  cases regions <;> rfl

/-- The mark at the end of a path is that of the region the path leads to. -/
theorem mark_marks {id : Id} (same : r.binding id = χ.resolution.binding id)
    (regions : List Region) :
    r.mark (χ.marks regions) id = χ.changes (χ.resolution.region? id regions) := by
  unfold Resolution.mark Resolution.region?
  rw [same]
  cases χ.resolution.binding id with
  | global => rfl
  | «local» hops =>
    dsimp only
    rw [List.getD_eq_getElem?_getD, marks, List.getElem?_map]
    cases regions[hops]? <;> rfl

theorem marks_classRegions (plain : χ.scope.kind.bound? = none) (address : TreeAddress)
    (regions : List Region) (superclass : Option Variable) :
    χ.marks (Site.classRegions address regions superclass) =
      false :: (χ.marks regions).ofClass superclass.isSome := by
  have other : ∀ region : Region, region.kind.bound? ≠ none → χ.changes (some region) = false := by
    refine fun region bound => decide_eq_false fun same => bound ?_
    rw [Option.some.inj same, plain]
  have this : ∀ derived, χ.changes (some ⟨.this derived, address⟩) = false :=
    fun derived => other _ (Option.some_ne_none _)
  cases superclass with
  | none => exact congrArg (· :: χ.marks regions) (this false)
  | some parent =>
    have super : χ.changes (some ⟨.super, address⟩) = false := other _ (Option.some_ne_none _)
    exact congrArg₂ (· :: · :: χ.marks regions) (this true) super

theorem renamed_name (home : Option Region) {name : Name} (fresh : name.text ≠ χ.new) :
    name.Renamed χ.toRenaming (χ.changes home) (χ.name home name) :=
  ⟨names_text home fresh, rfl⟩

/-- A declaration in the innermost region. -/
theorem renamed_declared {regions : List Region} {name : Name}
    (suits : χ.Suits r (.declaring regions name)) :
    name.Renamed χ.toRenaming ((χ.marks regions).headD false) (χ.name regions.head? name) := by
  rw [headD_marks]
  exact renamed_name _ suits.fresh

/-- The name of a function or class stays. -/
theorem names_definition {regions : List Region} {name : Name}
    (suits : χ.Suits r (.declaring regions name))
    (spared : χ.Spares ⟨.definition, name, regions⟩) :
    χ.Names ((χ.marks regions).headD false) name.text name.text := by
  have names := (renamed_declared suits).text
  rwa [name_of_spares spared] at names

/-- A node at which a variable is read or assigned. -/
theorem renamed_occurrence {regions : List Region} {v : Variable} {site : Site}
    (suits : χ.Suits r site) (node : site.id? = some v.id) (name : site.name = v.name) :
    v.Renamed χ.toRenaming r (χ.marks regions) (χ.occurrence regions v) := by
  refine ⟨rfl, ?_⟩
  rw [mark_marks (suits.binding v.id node)]
  exact renamed_name _ (name ▸ suits.fresh)

mutual

/-- One case for each kind of expression.  Its nodes are bound as in the program, since they are
sites of it. -/
theorem renamed_expr (regions : List Region) (pending : Pending) : ∀ e : Expr,
    (∀ site ∈ Site.ofExpr regions pending e, χ.Suits r site) →
      e.Renamed χ.toRenaming r (χ.marks regions) (χ.expr regions e)
  | .literal value, _ => .literal value
  | .grouping inner, suits => .grouping (renamed_expr regions pending inner suits)
  | .unary op line operand, suits => .unary op line (renamed_expr regions pending operand suits)
  | .binary op line left right, suits =>
    have ⟨first, second⟩ := List.forall_mem_append.1 suits
    .binary op line (renamed_expr regions pending left first)
      (renamed_expr regions pending right second)
  | .logical op line left right, suits =>
    have ⟨first, second⟩ := List.forall_mem_append.1 suits
    .logical op line (renamed_expr regions pending left first)
      (renamed_expr regions pending right second)
  | .variable _, suits =>
    .variable (renamed_occurrence (suits _ (List.mem_singleton_self _)) rfl rfl)
  | .assign _ value, suits =>
    have ⟨first, target⟩ := List.forall_mem_append.1 suits
    .assign (renamed_occurrence (target _ (List.mem_singleton_self _)) rfl rfl)
      (renamed_expr regions pending value first)
  | .call callee arguments line, suits =>
    have ⟨first, others⟩ := List.forall_mem_append.1 suits
    .call (renamed_expr regions pending callee first)
      (renamed_exprs regions pending arguments others) line
  | .get object property, suits => .get (renamed_expr regions pending object suits) property
  | .set object property value, suits =>
    have ⟨first, second⟩ := List.forall_mem_append.1 suits
    .set (renamed_expr regions pending object second) property
      (renamed_expr regions pending value first)
  | .this id line, _ => .this id line
  | .super id line method, _ => .super id line method
  | .list line elements, suits => .list line (renamed_exprs regions pending elements suits)

theorem renamed_exprs (regions : List Region) (pending : Pending) : ∀ es : List Expr,
    (∀ site ∈ Site.ofExprs regions pending es, χ.Suits r site) →
      Expr.RenamedAll χ.toRenaming r (χ.marks regions) es (χ.exprs regions es)
  | [], _ => .nil
  | e :: es, suits =>
    have ⟨first, others⟩ := List.forall_mem_append.1 suits
    .cons (renamed_expr regions pending e first) (renamed_exprs regions pending es others)

end

theorem renamed_optional (regions : List Region) (pending : Pending) {e : Option Expr}
    (suits : ∀ site ∈ Site.ofOptional regions pending e, χ.Suits r site) :
    Option.Rel (Expr.Renamed χ.toRenaming r (χ.marks regions)) e (e.map (χ.expr regions)) := by
  cases e with
  | none => exact .none
  | some e => exact .some (renamed_expr regions pending e suits)

theorem renamed_superclass (regions : List Region) (name : Name) {superclass : Option Variable}
    (suits : ∀ site ∈ Site.ofSuperclass regions name superclass, χ.Suits r site) :
    Option.Rel (Variable.Renamed χ.toRenaming r (χ.marks regions)) superclass
      (superclass.map (χ.occurrence regions)) := by
  cases superclass with
  | none => exact .none
  | some parent =>
    exact .some (renamed_occurrence (suits _ (List.mem_singleton_self _)) rfl rfl)

mutual

/-- One case for each kind of statement. -/
theorem renamed_stmt (plain : χ.scope.kind.bound? = none) (address : TreeAddress)
    (regions : List Region) : ∀ s : Stmt,
    (∀ site ∈ Site.ofStmt address regions s, χ.Suits r site) →
    (∀ declaration ∈ Declaration.ofStmt address regions s, χ.Spares declaration) →
      s.Renamed χ.toRenaming r (χ.marks regions) (χ.stmt address regions s)
  | .print line value, suits, _ => .print line (renamed_expr regions none value suits)
  | .expression value, suits, _ => .expression (renamed_expr regions none value suits)
  | .varDecl _ _, suits, _ =>
    have ⟨declared, initializer⟩ := List.forall_mem_cons.1 suits
    .varDecl (renamed_declared declared) (renamed_optional regions _ initializer)
  | .block body, suits, spares => .block (χ.changes (some ⟨.block, address⟩))
    (renamed_stmts plain address 0 (⟨.block, address⟩ :: regions) body suits spares)
  | .ifElse condition thenBranch elseBranch, suits, spares => by
    obtain ⟨both, third⟩ := List.forall_mem_append.1 suits
    obtain ⟨first, second⟩ := List.forall_mem_append.1 both
    obtain ⟨spares, spares'⟩ := List.forall_mem_append.1 spares
    have test := renamed_expr regions none condition first
    have branch := renamed_stmt plain (0 :: address) regions thenBranch second spares
    cases elseBranch with
    | none => exact .ifThen test branch
    | some elseBranch =>
      exact .ifElse test branch (renamed_stmt plain (1 :: address) regions elseBranch third spares')
  | .whileLoop condition body, suits, spares =>
    have ⟨first, second⟩ := List.forall_mem_append.1 suits
    .whileLoop (renamed_expr regions none condition first)
      (renamed_stmt plain (0 :: address) regions body second spares)
  | .forEach line _ iterable body, suits, spares =>
    have ⟨first, inside⟩ := List.forall_mem_append.1 suits
    have ⟨declared, second⟩ := List.forall_mem_cons.1 inside
    .forEach (χ.changes (some ⟨.iteration, address⟩)) line (renamed_name _ declared.fresh)
      (renamed_expr regions none iterable first)
      (renamed_stmt plain (0 :: address) (⟨.iteration, address⟩ :: regions) body second
        (List.forall_mem_cons.1 spares).2)
  | .funDecl declaration, suits, spares => by
    obtain ⟨declared, inside⟩ := List.forall_mem_cons.1 suits
    obtain ⟨spared, spares⟩ := List.forall_mem_cons.1 spares
    exact .funDecl (names_definition declared spared)
      (renamed_function plain .function address regions declaration inside spares)
  | .ret line _, suits, _ =>
    have ⟨_, given⟩ := List.forall_mem_cons.1 suits
    .ret line (renamed_optional regions none given)
  | .classDecl name superclass methods, suits, spares => by
    obtain ⟨before, inside⟩ := List.forall_mem_append.1 suits
    obtain ⟨declared, inherited⟩ := List.forall_mem_cons.1 before
    obtain ⟨spared, spares⟩ := List.forall_mem_cons.1 spares
    have made := renamed_methodDecls plain address 0
      (Site.classRegions address regions superclass) methods inside spares
    rw [marks_classRegions plain] at made
    exact .classDecl name (names_definition declared spared)
      (renamed_superclass regions name inherited) made

theorem renamed_stmts (plain : χ.scope.kind.bound? = none) (address : TreeAddress) (index : Nat)
    (regions : List Region) : ∀ body : List Stmt,
    (∀ site ∈ Site.ofStmts address index regions body, χ.Suits r site) →
    (∀ declaration ∈ Declaration.ofStmts address index regions body, χ.Spares declaration) →
      Stmt.RenamedAll χ.toRenaming r (χ.marks regions) body (χ.stmts address index regions body)
  | [], _, _ => .nil
  | s :: rest, suits, spares =>
    have ⟨first, others⟩ := List.forall_mem_append.1 suits
    have ⟨spares, spares'⟩ := List.forall_mem_append.1 spares
    .cons (renamed_stmt plain (index :: address) regions s first spares)
      (renamed_stmts plain address (index + 1) regions rest others spares')

/-- A function keeps its name, and its parameters may be renamed. -/
theorem renamed_function (plain : χ.scope.kind.bound? = none) (kind : RegionKind)
    (address : TreeAddress) (regions : List Region) : ∀ d : FunDecl,
    (∀ site ∈ Site.ofFunction kind address regions d, χ.Suits r site) →
    (∀ declaration ∈ Declaration.ofFunction kind address regions d, χ.Spares declaration) →
      d.Renamed χ.toRenaming r (χ.marks regions) (χ.function kind address regions d)
  | ⟨name, params, body⟩, suits, spares => by
    obtain ⟨declared, inside⟩ := List.forall_mem_append.1 suits
    obtain ⟨-, spares⟩ := List.forall_mem_append.1 spares
    have fresh := List.forall_mem_map.1 declared
    refine .mk (χ.changes (some ⟨kind, address⟩)) name ?_
      (renamed_stmts plain address 0 (⟨kind, address⟩ :: regions) body inside spares)
    rw [List.forall₂_map_right_iff, List.forall₂_same]
    exact fun name mem => renamed_name _ (fresh name mem).fresh

theorem renamed_methodDecls (plain : χ.scope.kind.bound? = none) (address : TreeAddress)
    (index : Nat) (regions : List Region) : ∀ methods : List FunDecl,
    (∀ site ∈ Site.ofMethods address index regions methods, χ.Suits r site) →
    (∀ declaration ∈ Declaration.ofMethods address index regions methods,
      χ.Spares declaration) →
      FunDecl.RenamedAll χ.toRenaming r (χ.marks regions) methods
        (χ.methodDecls address index regions methods)
  | [], _, _ => .nil
  | method :: rest, suits, spares =>
    have ⟨first, others⟩ := List.forall_mem_append.1 suits
    have ⟨spares, spares'⟩ := List.forall_mem_append.1 spares
    .cons (renamed_function plain _ (index :: address) regions method first spares)
      (renamed_methodDecls plain address (index + 1) regions rest others spares')

end

/-- **The two programs are related**, wherever the nodes are bound as in the program. -/
theorem renamed_program {program : List Stmt} (plain : χ.scope.kind.bound? = none)
    (suits : ∀ site ∈ Site.ofProgram program, χ.Suits r site)
    (spares : ∀ declaration ∈ Declaration.ofProgram program, χ.Spares declaration) :
    Stmt.RenamedAll χ.toRenaming r [] program (χ.program program) :=
  renamed_stmts plain [] 0 [] program suits spares

end Related

/-! ## 5. Accepted programs

What has been assumed of the variable holds of each one that is declared in a program that is
accepted. -/

section Accepted

variable {χ : LocalRenaming} {program : List Stmt}
  (declared : χ.scope.DeclaresVariable program χ.old)

include declared

/-- The name of a variable is not that of a function or class in the same region. -/
theorem spares_of_declares (resolved : resolve program = .ok χ.resolution) :
    ∀ declaration ∈ Declaration.ofProgram program, χ.Spares declaration := by
  intro other mem sort head same
  obtain ⟨declaration, mem', sort', head', text⟩ := declared
  have ne : declaration ≠ other := by
    rintro rfl
    rw [sort] at sort'
    cases sort'
  exact Declaration.apart resolved mem' mem ne χ.scope head' head (text.trans same.symm)

/-- A variable that has been declared has an ordinary name, and so its region binds no name by
itself. -/
theorem proper_of_declares (grammatical : Stmt.GrammaticalAll program) :
    Ordinary χ.old ∧ χ.scope.kind.bound? = none := by
  obtain ⟨declaration, mem, -, head, text⟩ := declared
  obtain ⟨ordinary, plain⟩ := Declaration.proper_ofProgram grammatical declaration mem
  exact ⟨text ▸ ordinary, plain χ.scope head⟩

end Accepted

end LocalRenaming

end Lox
