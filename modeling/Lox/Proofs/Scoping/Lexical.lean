/-
# Resolving is lexical

What `resolve` says of a program can be read off its sites, with no stack of scopes and no walk.

* `resolve_reports_violations`: it accepts the programs without violations, and for the others it
  gives one error for each violation.
* `resolution_is_lexical`: of an accepted program it files, for each node, how many regions out the
  innermost one lies in which the name has been declared before, and nothing else.

§1 is about the addresses of regions, by which the regions of one construct are told from those of
another one; §2 takes the walk through the constructs.
-/
import Mathlib
import Lox.Proofs.Scoping.Visit
import Lox.Proofs.Session.Scoped

namespace Lox

open Site (ofExpr ofExprs ofOptional ofStmt ofOptionalStmt ofStmts ofFunction ofMethods ofSuperclass
  classRegions)

/-! ## 1. Addresses

Each region has the place of its construct in the tree as its address.  Where the regions of a
construct begin, no site has been in them before. -/

/-- Some regions lie around an address. -/
def Around (regions : List Region) (address : TreeAddress) : Prop :=
  ∀ region ∈ regions, region.address.length < address.length

/-- None of some sites stands directly in a region at an address or below it. -/
def Untouched (sites : List Site) (address : TreeAddress) : Prop :=
  ∀ site ∈ sites, ∀ region, site.regions.head? = some region → ¬ address <:+ region.address

/-- Each of some sites stands directly in the innermost of some regions, or in a region at an
address or below it. -/
def StaysIn (address : TreeAddress) (regions : List Region) (sites : List Site) : Prop :=
  ∀ site ∈ sites, site.regions.head? = regions.head? ∨
    ∃ region, site.regions.head? = some region ∧ address <:+ region.address

section Addresses

variable {address address' : TreeAddress} {regions : List Region} {sites sites' : List Site}

/-- A region around an address is around the addresses below it. -/
theorem Around.child (h : Around regions address) (index : Nat) :
    Around regions (index :: address) := by
  intro region mem
  have := h region mem
  rw [List.length_cons]
  omega

/-- The region of a construct lies around the parts of the construct, too. -/
theorem Around.cons {index : Nat} (h : Around regions (index :: address)) (kind : RegionKind) :
    Around (⟨kind, address⟩ :: regions) (index :: address) := by
  intro region mem
  rcases List.mem_cons.1 mem with rfl | mem
  · simp
  · exact h region mem

/-- A region at an address is not around that address. -/
theorem Around.notMem (h : Around regions address) (kind : RegionKind) :
    (⟨kind, address⟩ : Region) ∉ regions :=
  fun mem => Nat.lt_irrefl _ (h _ mem)

/-- What stands below no part of an address stands below no part of a longer one. -/
theorem Untouched.child (h : Untouched sites address) (index : Nat) :
    Untouched sites (index :: address) :=
  fun site mem region head below =>
    h site mem region head ((List.suffix_cons index address).trans below)

/-- In particular, no site stands directly in a region at the address. -/
theorem Untouched.head?_ne (h : Untouched sites address) (kind : RegionKind) :
    ∀ site ∈ sites, site.regions.head? ≠ some ⟨kind, address⟩ :=
  fun site mem head => h site mem _ head (List.suffix_refl _)

/-- Two lists of sites. -/
theorem Untouched.append (h : Untouched sites address) (h' : Untouched sites' address) :
    Untouched (sites ++ sites') address := by
  intro site mem
  rcases List.mem_append.1 mem with mem | mem
  · exact h site mem
  · exact h' site mem

/-- Sites in regions around an address do not touch it. -/
theorem Untouched.of_around (around : Around regions address)
    (here : ∀ site ∈ sites, site.regions.head? = regions.head?) : Untouched sites address := by
  intro site mem region head below
  have inside : region ∈ regions := List.mem_of_head? ((here site mem).symm.trans head)
  exact Nat.not_le.2 (around region inside) below.length_le

/-- Different parts of a construct have nothing in common. -/
theorem not_suffix_of_ne {index index' : Nat} (h : index ≠ index') {below : TreeAddress}
    (first : (index :: address) <:+ below) : ¬ (index' :: address) <:+ below := by
  intro second
  have same : (index :: address) <:+ (index' :: address) :=
    List.suffix_of_suffix_length_le first second (by simp)
  have heq := same.eq_of_length (by simp)
  exact h (List.cons.inj heq).1

/-- One part of a construct does not touch another one. -/
theorem StaysIn.untouched {index index' : Nat} (h : StaysIn (index :: address) regions sites)
    (around : Around regions (index' :: address)) (ne : index ≠ index') :
    Untouched sites (index' :: address) := by
  intro site mem region head below
  rcases h site mem with here | ⟨region', head', below'⟩
  · have inside : region ∈ regions := List.mem_of_head? (here.symm.trans head)
    exact Nat.not_le.2 (around region inside) below.length_le
  · cases head.symm.trans head'
    exact not_suffix_of_ne ne below' below

namespace StaysIn

theorem nil : StaysIn address regions [] := fun site mem => by cases mem

/-- Sites directly in the regions stay in them. -/
theorem of_here (here : ∀ site ∈ sites, site.regions = regions) : StaysIn address regions sites :=
  fun site mem => Or.inl (by rw [here site mem])

/-- Two lists of sites. -/
theorem append (h : StaysIn address regions sites) (h' : StaysIn address regions sites') :
    StaysIn address regions (sites ++ sites') := by
  intro site mem
  rcases List.mem_append.1 mem with mem | mem
  · exact h site mem
  · exact h' site mem

/-- One more site that stands directly in the regions. -/
theorem cons (site : Site) (here : site.regions = regions) (h : StaysIn address regions sites) :
    StaysIn address regions (site :: sites) := by
  intro other mem
  rcases List.mem_cons.1 mem with rfl | mem
  · exact Or.inl (by rw [here])
  · exact h other mem

/-- What stays in a part stays in the whole. -/
theorem of_child {index : Nat} (h : StaysIn (index :: address) regions sites) :
    StaysIn address regions sites := by
  intro site mem
  rcases h site mem with here | ⟨region, head, below⟩
  · exact Or.inl here
  · exact Or.inr ⟨region, head, (List.suffix_cons index address).trans below⟩

/-- What stays in the region of a construct stays in the construct. -/
theorem of_region {kind : RegionKind} {regions' : List Region}
    (h : StaysIn address (⟨kind, address⟩ :: regions') sites) :
    StaysIn address regions sites := by
  intro site mem
  rcases h site mem with here | below
  · exact Or.inr ⟨⟨kind, address⟩, here, List.suffix_refl _⟩
  · exact Or.inr below

end StaysIn

end Addresses

mutual

/-- An expression stays in its regions, and declares nothing. -/
theorem Site.regions_of_mem_ofExpr (regions : List Region) (pending : Pending) :
    ∀ (e : Expr), ∀ site ∈ ofExpr regions pending e,
      site.regions = regions ∧ site.kind ≠ .declares
  | .literal _ => by simp [ofExpr]
  | .grouping inner => by
    simpa [ofExpr] using regions_of_mem_ofExpr regions pending inner
  | .unary _ _ operand => by
    simpa [ofExpr] using regions_of_mem_ofExpr regions pending operand
  | .binary _ _ left right => by
    intro site mem
    rw [ofExpr] at mem
    rcases List.mem_append.1 mem with mem | mem
    · exact regions_of_mem_ofExpr regions pending left site mem
    · exact regions_of_mem_ofExpr regions pending right site mem
  | .logical _ _ left right => by
    intro site mem
    rw [ofExpr] at mem
    rcases List.mem_append.1 mem with mem | mem
    · exact regions_of_mem_ofExpr regions pending left site mem
    · exact regions_of_mem_ofExpr regions pending right site mem
  | .variable v => by simp [ofExpr]
  | .assign target value => by
    intro site mem
    rw [ofExpr] at mem
    rcases List.mem_append.1 mem with mem | mem
    · exact regions_of_mem_ofExpr regions pending value site mem
    · obtain rfl := List.mem_singleton.1 mem
      simp
  | .call callee arguments _ => by
    intro site mem
    rw [ofExpr] at mem
    rcases List.mem_append.1 mem with mem | mem
    · exact regions_of_mem_ofExpr regions pending callee site mem
    · exact regions_of_mem_ofExprs regions pending arguments site mem
  | .get object _ => by
    simpa [ofExpr] using regions_of_mem_ofExpr regions pending object
  | .set object _ value => by
    intro site mem
    rw [ofExpr] at mem
    rcases List.mem_append.1 mem with mem | mem
    · exact regions_of_mem_ofExpr regions pending value site mem
    · exact regions_of_mem_ofExpr regions pending object site mem
  | .this _ _ => by simp [ofExpr]
  | .super _ _ _ => by simp [ofExpr]
  | .list _ elements => by
    simpa [ofExpr] using regions_of_mem_ofExprs regions pending elements

theorem Site.regions_of_mem_ofExprs (regions : List Region) (pending : Pending) :
    ∀ (es : List Expr), ∀ site ∈ ofExprs regions pending es,
      site.regions = regions ∧ site.kind ≠ .declares
  | [] => by simp [ofExprs]
  | e :: es => by
    intro site mem
    rw [ofExprs] at mem
    rcases List.mem_append.1 mem with mem | mem
    · exact regions_of_mem_ofExpr regions pending e site mem
    · exact regions_of_mem_ofExprs regions pending es site mem

end

theorem Site.regions_of_mem_ofOptional (regions : List Region) (pending : Pending)
    (e : Option Expr) : ∀ site ∈ ofOptional regions pending e, site.regions = regions := by
  intro site mem
  cases e with
  | none => cases mem
  | some e => exact (regions_of_mem_ofExpr regions pending e site mem).1

theorem Site.regions_of_mem_ofSuperclass (regions : List Region) (name : Name)
    (superclass : Option Variable) :
    ∀ site ∈ ofSuperclass regions name superclass, site.regions = regions := by
  intro site mem
  cases superclass with
  | none => cases mem
  | some parent =>
    obtain rfl := List.mem_singleton.1 mem
    rfl

/-- An expression has no region of its own, so all its sites stand where it does. -/
theorem Site.staysIn_ofExpr (address : TreeAddress) (regions : List Region) (e : Expr) :
    StaysIn address regions (ofExpr regions none e) :=
  .of_here fun site mem => (regions_of_mem_ofExpr regions none e site mem).1

mutual

/-- The sites in a statement stay in it. -/
theorem Site.staysIn_ofStmt (address : TreeAddress) (regions : List Region) :
    ∀ s : Stmt, StaysIn address regions (ofStmt address regions s)
  | .print _ value => staysIn_ofExpr address regions value
  | .expression value => staysIn_ofExpr address regions value
  | .varDecl name initializer =>
    .cons _ rfl (.of_here (regions_of_mem_ofOptional regions (some name.text) initializer))
  | .block body => (staysIn_ofStmts address 0 _ body).of_region
  | .ifElse condition thenBranch elseBranch =>
    ((staysIn_ofExpr address regions condition).append
      (staysIn_ofStmt (0 :: address) regions thenBranch).of_child).append
      (staysIn_ofOptionalStmt (1 :: address) regions elseBranch).of_child
  | .whileLoop condition body =>
    (staysIn_ofExpr address regions condition).append
      (staysIn_ofStmt (0 :: address) regions body).of_child
  | .forEach _ name iterable body => by
    have turn := (staysIn_ofStmt (0 :: address) (⟨.iteration, address⟩ :: regions) body).of_child
    have inside := turn.cons (.declaring (⟨.iteration, address⟩ :: regions) name) rfl
    exact (staysIn_ofExpr address regions iterable).append inside.of_region
  | .funDecl declaration => .cons _ rfl (staysIn_ofFunction .function address regions declaration)
  | .ret _ value => .cons _ rfl (.of_here (regions_of_mem_ofOptional regions none value))
  | .classDecl name superclass methods => by
    have inside := staysIn_ofMethods address 0 (classRegions address regions superclass) methods
    have inherited := regions_of_mem_ofSuperclass regions name superclass
    refine StaysIn.append (.cons _ rfl (.of_here inherited)) ?_
    cases superclass with
    | none => exact inside.of_region
    | some parent => exact inside.of_region

theorem Site.staysIn_ofOptionalStmt (address : TreeAddress) (regions : List Region) :
    ∀ s : Option Stmt, StaysIn address regions (ofOptionalStmt address regions s)
  | none => .nil
  | some s => staysIn_ofStmt address regions s

/-- The statements of a block are numbered, so the regions in different ones differ. -/
theorem Site.staysIn_ofStmts (address : TreeAddress) (index : Nat) (regions : List Region) :
    ∀ body : List Stmt, StaysIn address regions (ofStmts address index regions body)
  | [] => .nil
  | s :: rest =>
    (staysIn_ofStmt (index :: address) regions s).of_child.append
      (staysIn_ofStmts address (index + 1) regions rest)

/-- A function has one region for its parameters and its body. -/
theorem Site.staysIn_ofFunction (kind : RegionKind) (address : TreeAddress)
    (regions : List Region) : ∀ declaration : FunDecl,
      StaysIn address regions (ofFunction kind address regions declaration)
  | ⟨_, params, body⟩ => by
    have parameters : StaysIn address (⟨kind, address⟩ :: regions)
        (params.map (Site.declaring (⟨kind, address⟩ :: regions))) := .of_here fun site mem => by
      obtain ⟨name, -, rfl⟩ := List.mem_map.1 mem
      rfl
    exact (parameters.append (staysIn_ofStmts address 0 _ body)).of_region

theorem Site.staysIn_ofMethods (address : TreeAddress) (index : Nat) (regions : List Region) :
    ∀ methods : List FunDecl, StaysIn address regions (ofMethods address index regions methods)
  | [] => .nil
  | method :: rest =>
    (staysIn_ofFunction _ (index :: address) regions method).of_child.append
      (staysIn_ofMethods address (index + 1) regions rest)

end

/-! ## 2. Constructs

`Visits` takes the walk from one frontier to another over some sites.  By induction on the tree,
each construct visits its sites in their order. -/

namespace Resolve

mutual

/-- An expression visits its sites from left to right, and declares nothing. -/
theorem visits_expr (regions : List Region) (pending : Pending) (earlier : List Site) :
    ∀ e : Expr, Visits (expr (Region.context regions) e) earlier ⟨regions, pending⟩
      (ofExpr regions pending e) ⟨regions, pending⟩
  | .literal _ => .nothing _ _
  | .grouping inner => visits_expr regions pending earlier inner
  | .unary _ _ operand => visits_expr regions pending earlier operand
  | .binary _ _ left right =>
    (visits_expr regions pending earlier left).andThen (visits_expr regions pending _ right)
  | .logical _ _ left right =>
    (visits_expr regions pending earlier left).andThen (visits_expr regions pending _ right)
  | .variable v => .readVariable v
  | .assign target value =>
    (visits_expr regions pending earlier value).andThen
      (.file ⟨.writes target.id, target.name, regions, pending⟩ rfl rfl rfl)
  | .call callee arguments _ =>
    (visits_expr regions pending earlier callee).andThen (visits_exprs regions pending _ arguments)
  | .get object _ => visits_expr regions pending earlier object
  | .set object _ value =>
    (visits_expr regions pending earlier value).andThen (visits_expr regions pending _ object)
  | .this id line => .this id line
  | .super id line method => .super id line method
  | .list _ elements => visits_exprs regions pending earlier elements

theorem visits_exprs (regions : List Region) (pending : Pending) (earlier : List Site) :
    ∀ es : List Expr, Visits (exprs (Region.context regions) es) earlier ⟨regions, pending⟩
      (ofExprs regions pending es) ⟨regions, pending⟩
  | [] => .nothing _ _
  | e :: es =>
    (visits_expr regions pending earlier e).andThen (visits_exprs regions pending _ es)

end

theorem visits_optionalExpr (regions : List Region) (pending : Pending) (earlier : List Site)
    (e : Option Expr) :
    Visits (optionalExpr (Region.context regions) e) earlier ⟨regions, pending⟩
      (ofOptional regions pending e) ⟨regions, pending⟩ := by
  cases e with
  | none => exact .nothing _ _
  | some e => exact visits_expr regions pending earlier e

/-- Parameters are declared and completed one by one, and what comes behind finds them all. -/
theorem visits_params {regions : List Region} {earlier : List Site} {x : Resolve Unit}
    {sites : List Site} {after : Frontier} (names : List Name)
    (h : Visits x (earlier ++ names.map (Site.declaring regions)) ⟨regions, none⟩ sites after) :
    Visits (do params names; x) earlier ⟨regions, none⟩
      (names.map (Site.declaring regions) ++ sites) after := by
  induction names generalizing earlier with
  | nil =>
    rw [List.map_nil, List.append_nil] at h
    exact h
  | cons name rest ih =>
    refine Visits.declare_define (ih ?_)
    rw [List.map_cons, List.append_cons] at h
    exact h

/-- The context of the methods of a class. -/
theorem methodContext_eq (address address' : TreeAddress) (regions : List Region)
    (superclass : Option Variable) (method : FunDecl) :
    methodContext method { Region.context regions with
      «class» := if superclass.isSome then .derived else .base } =
    Region.context (⟨.method method.isInitializer, address'⟩ ::
      classRegions address regions superclass) := by
  unfold methodContext
  cases superclass <;> cases method.isInitializer <;> rfl

/-! Sites that lie in the regions around an address touch none of the regions at it. -/

theorem untouched_ofExpr {regions : List Region} {address : TreeAddress}
    (around : Around regions address) (e : Expr) : Untouched (ofExpr regions none e) address :=
  .of_around around fun site mem => by
    rw [(Site.regions_of_mem_ofExpr regions none e site mem).1]

/-- A declaration stands in the regions around, which are not below the address. -/
theorem untouched_declaring {regions : List Region} {address : TreeAddress}
    (around : Around regions address) (name : Name) :
    Untouched [Site.declaring regions name] address :=
  .of_around around fun site mem => by
    rw [List.mem_singleton.1 mem]
    rfl

theorem untouched_ofSuperclass {regions : List Region} {address : TreeAddress}
    (around : Around regions address) (name : Name) (parent : Option Variable) :
    Untouched (ofSuperclass regions name parent) address :=
  .of_around around fun site mem => by
    rw [Site.regions_of_mem_ofSuperclass regions name parent site mem]

/-- The region of `super` is opened behind the sites of the superclass. -/
theorem visits_superclass (context : ResolveContext) {address : TreeAddress} {regions : List Region}
    (around : Around regions address) {earlier : List Site} (untouched : Untouched earlier address)
    (name : Name) (parent : Variable) :
    Visits (superclass context name (some parent)) earlier ⟨regions, none⟩
      (ofSuperclass regions name (some parent)) ⟨⟨.super, address⟩ :: regions, none⟩ :=
  .inherits parent name (.pushScope_bind (around.notMem .super) rfl
    ((untouched.append (untouched_ofSuperclass around name (some parent))).head?_ne .super))

/-- The region of `this` in a class with a superclass lies in that of `super`. -/
theorem this_notMem {regions : List Region} {address : TreeAddress}
    (around : Around regions address) :
    (⟨.this true, address⟩ : Region) ∉ (⟨.super, address⟩ :: regions : List Region) := by
  intro mem
  rcases List.mem_cons.1 mem with heq | mem
  · cases heq
  · exact around.notMem (.this true) mem

mutual

/-- One case for each kind of statement.  A construct with a region of its own leaves it at the end,
so what follows finds the regions of the start. -/
theorem visits_stmt (address : TreeAddress) (regions : List Region)
    (around : Around regions address) (earlier : List Site)
    (untouched : Untouched earlier address) :
    ∀ s : Stmt, Visits (stmt (Region.context regions) s) earlier ⟨regions, none⟩
      (ofStmt address regions s) ⟨regions, none⟩
  | .print _ value => visits_expr regions none earlier value
  | .expression value => visits_expr regions none earlier value
  | .varDecl name initializer =>
    (Visits.declare name).andThen
      ((visits_optionalExpr regions (some name.text) _ initializer).andThen_last (.define name))
  | .block body =>
    .andThen_nil (.pushScope (around.notMem .block) rfl (untouched.head?_ne .block))
      ((visits_stmts address 0 (⟨.block, address⟩ :: regions)
        (fun index => (around.child index).cons .block) earlier
        (fun index _ => untouched.child index) body).andThen_last .popScope)
  | .ifElse condition thenBranch elseBranch => by
    have quiet := fun index => untouched_ofExpr (around.child index) condition
    have first := visits_stmt (0 :: address) regions (around.child 0) _
      ((untouched.child 0).append (quiet 0)) thenBranch
    have second := visits_optionalStmt (1 :: address) regions (around.child 1) _
      (((untouched.child 1).append (quiet 1)).append
        ((Site.staysIn_ofStmt (0 :: address) regions thenBranch).untouched (around.child 1)
          Nat.zero_ne_one)) elseBranch
    have all := (visits_expr regions none earlier condition).andThen (first.andThen second)
    rw [← List.append_assoc] at all
    exact all
  | .whileLoop condition body => by
    have quiet := untouched_ofExpr (around.child 0) condition
    exact (visits_expr regions none earlier condition).andThen
      (visits_stmt (0 :: address) regions (around.child 0) _
        ((untouched.child 0).append quiet) body)
  | .forEach _ name iterable body => by
    have before := untouched.append (untouched_ofExpr around iterable)
    have declared := untouched_declaring ((around.child 0).cons .iteration) name
    have turn := visits_stmt (0 :: address) (⟨.iteration, address⟩ :: regions)
      ((around.child 0).cons .iteration) _ ((before.child 0).append declared) body
    exact (visits_expr regions none earlier iterable).andThen
      (.andThen_nil (.pushScope (around.notMem .iteration) rfl (before.head?_ne .iteration))
        (.declare_define (turn.andThen_last .popScope)))
  | .funDecl declaration =>
    .declare_define (visits_function .function rfl address regions around _
      (untouched.append (untouched_declaring around declaration.name)) declaration)
  | .ret line value => .ret line value (visits_optionalExpr regions none _ value)
  | .classDecl name none methods => by
    have before := untouched.append (untouched_declaring around name)
    have inside := visits_methodDecls address 0 (classRegions address regions none)
      (fun index => (around.child index).cons (.this false)) _
      (methodContext_eq address · regions none ·) _ (fun index _ => before.child index) methods
    have opens := Visits.pushScope_bind (around.notMem (.this false)) rfl
      (before.head?_ne (.this false))
    have all := opens.andThen_nil (inside.andThen_last (.andThen_last .popScope (.nothing _ _)))
    rw [bind_assoc] at all
    exact .declare_define (.andThen_nil (.nothing _ _) all)
  | .classDecl name (some parent) methods => by
    have declared := untouched.append (untouched_declaring around name)
    have before := declared.append (untouched_ofSuperclass around name (some parent))
    have inside := visits_methodDecls address 0 (classRegions address regions (some parent))
      (fun index => ((around.child index).cons .super).cons (.this true)) _
      (methodContext_eq address · regions (some parent) ·) _ (fun index _ => before.child index)
      methods
    have opens := Visits.pushScope_bind (this_notMem around) rfl (before.head?_ne (.this true))
    have all := opens.andThen_nil (inside.andThen_last (.andThen_last .popScope .popScope))
    rw [bind_assoc] at all
    exact .declare_define ((visits_superclass _ around declared name parent).andThen all)

theorem visits_optionalStmt (address : TreeAddress) (regions : List Region)
    (around : Around regions address) (earlier : List Site)
    (untouched : Untouched earlier address) :
    ∀ s : Option Stmt, Visits (optionalStmt (Region.context regions) s) earlier ⟨regions, none⟩
      (ofOptionalStmt address regions s) ⟨regions, none⟩
  | none => .nothing _ _
  | some s => visits_stmt address regions around earlier untouched s

/-- The statements of a block, each behind the sites of those in front. -/
theorem visits_stmts (address : TreeAddress) (index : Nat) (regions : List Region)
    (around : ∀ index, Around regions (index :: address)) (earlier : List Site)
    (untouched : ∀ index' ≥ index, Untouched earlier (index' :: address)) :
    ∀ body : List Stmt, Visits (stmts (Region.context regions) body) earlier ⟨regions, none⟩
      (ofStmts address index regions body) ⟨regions, none⟩
  | [] => .nothing _ _
  | s :: rest => by
    have first := visits_stmt (index :: address) regions (around index) earlier
      (untouched index (Nat.le_refl _)) s
    refine first.andThen (visits_stmts address (index + 1) regions around _ ?_ rest)
    intro index' later
    exact (untouched index' (by omega)).append
      ((Site.staysIn_ofStmt (index :: address) regions s).untouched (around index') (by omega))

/-- The region of a function is new: no site in front of it stands there. -/
theorem visits_function (kind : RegionKind) (plain : kind.bound? = none) (address : TreeAddress)
    (regions : List Region) (around : Around regions address) (earlier : List Site)
    (untouched : Untouched earlier address) :
    ∀ declaration : FunDecl,
      Visits (function (Region.context (⟨kind, address⟩ :: regions)) declaration) earlier
        ⟨regions, none⟩ (ofFunction kind address regions declaration) ⟨regions, none⟩
  | ⟨_, names, body⟩ => by
    have params : ∀ index, Untouched (names.map (Site.declaring (⟨kind, address⟩ :: regions)))
        (index :: address) :=
      fun index => .of_around ((around.child index).cons kind) fun site mem => by
        obtain ⟨name, -, rfl⟩ := List.mem_map.1 mem
        rfl
    have inside := visits_stmts address 0 (⟨kind, address⟩ :: regions)
      (fun index => (around.child index).cons kind) _
      (fun index _ => (untouched.child index).append (params index)) body
    exact .andThen_nil (.pushScope (around.notMem kind) plain (untouched.head?_ne kind))
      (visits_params names (inside.andThen_last .popScope))

/-- Each method has a region for its receiver and one for its parameters and body. -/
theorem visits_methodDecls (address : TreeAddress) (index : Nat) (regions : List Region)
    (around : ∀ index, Around regions (index :: address)) (context : ResolveContext)
    (fits : ∀ address method, methodContext method context =
      Region.context (⟨.method method.isInitializer, address⟩ :: regions)) (earlier : List Site)
    (untouched : ∀ index' ≥ index, Untouched earlier (index' :: address)) :
    ∀ methods : List FunDecl, Visits (methodDecls context methods) earlier ⟨regions, none⟩
      (ofMethods address index regions methods) ⟨regions, none⟩
  | [] => .nothing _ _
  | method :: rest => by
    have first := visits_function (.method method.isInitializer) rfl (index :: address) regions
      (around index) earlier (untouched index (Nat.le_refl _)) method
    rw [← fits (index :: address) method] at first
    refine first.andThen
      (visits_methodDecls address (index + 1) regions around context fits _ ?_ rest)
    intro index' later
    exact (untouched index' (by omega)).append
      ((Site.staysIn_ofFunction _ (index :: address) regions method).untouched (around index')
        (by omega))

end

/-- The walk over a whole program reports the errors at its sites, and if there are none, it files
their hops. -/
theorem finish_eq (program : List Stmt) :
    (finish program).errors = Site.errorsFrom [] (Site.ofProgram program) ∧
      (Site.errorsFrom [] (Site.ofProgram program) = [] →
        (finish program).resolution = Site.fileFrom [] (Site.ofProgram program) .empty) := by
  have visits := visits_stmts [] 0 [] (fun _ region mem => by cases mem) []
    (fun _ _ site mem => by cases mem) program
  have start : Agrees [] ⟨[], none⟩ [] := by
    refine ⟨trivial, ?_, List.nodup_nil⟩
    intro name region pending
    cases pending
  obtain ⟨-, errors, files⟩ := visits ⟨[], .empty, []⟩ start
  exact ⟨errors, files⟩

end Resolve

/-! ## 3. Static errors

What the walk reports at a site depends on the sites before it, and so does the violation of the
site. -/

namespace Site

/-- The errors of some sites, each judged by the sites in front of it. -/
theorem errorsFrom_eq (earlier sites : List Site) :
    errorsFrom earlier sites = (sites.zipIdx earlier.length).filterMap fun (site, index) =>
      site.error? ((earlier ++ sites).take index) := by
  induction sites generalizing earlier with
  | nil => rfl
  | cons site rest ih =>
    rw [errorsFrom, ih, List.zipIdx_cons, List.filterMap_cons]
    simp only [List.take_left, List.append_assoc, List.singleton_append, List.length_append,
      List.length_singleton]
    cases site.error? earlier <;> rfl

/-- There are no errors just if no site has a violation. -/
theorem errorsFrom_eq_nil (earlier sites : List Site) :
    errorsFrom earlier sites = [] ↔ ∀ (index : Nat) (site : Site), sites[index]? = some site →
      site.violation? (earlier ++ sites.take index) = none := by
  induction sites generalizing earlier with
  | nil => simp [errorsFrom]
  | cons site rest ih =>
    rw [errorsFrom, List.append_eq_nil_iff, ih, Option.toList_eq_nil_iff, error?,
      Option.map_eq_none_iff]
    constructor
    · rintro ⟨here, later⟩ index other found
      cases index with
      | zero =>
        cases found
        simpa using here
      | succ index => simpa using later index other found
    · intro all
      refine ⟨by simpa using all 0 site rfl, fun index other found => ?_⟩
      simpa using all (index + 1) other found

end Site

/-- The violations of a program are the errors of its sites. -/
theorem violations_eq (program : List Stmt) :
    violations program = Site.errorsFrom [] (Site.ofProgram program) := by
  rw [Site.errorsFrom_eq]
  rfl

/-- **The resolver accepts exactly the programs without violations.**  It accepts a program if and
only if there is nothing wrong at any site, given the sites before it; and otherwise its errors are
those at the sites, one for each violation and in the order of the sites. -/
theorem resolve_reports_violations (program : List Stmt) :
    let sites := Site.ofProgram program
    ((∃ resolution, resolve program = .ok resolution) ↔
      ∀ (index : Nat) (site : Site), sites[index]? = some site →
        site.violation? (sites.take index) = none) ∧
    ∀ errors, resolve program = .error errors ↔ errors = violations program ∧ errors ≠ [] := by
  intro sites
  obtain ⟨reported, -⟩ := Resolve.finish_eq program
  constructor
  · have fine := Site.errorsFrom_eq_nil [] sites
    simp only [List.nil_append] at fine
    rw [← fine, ← reported]
    constructor
    · rintro ⟨resolution, resolved⟩
      exact (resolve_eq_ok.1 resolved).1
    · intro clean
      exact ⟨_, resolve_eq_ok.2 ⟨clean, rfl⟩⟩
  · intro errors
    rw [violations_eq, ← reported]
    change (if (Resolve.finish program).errors.isEmpty then
      Except.ok (Resolve.finish program).resolution else .error (Resolve.finish program).errors) =
        _ ↔ _
    by_cases clean : (Resolve.finish program).errors = []
    · rw [clean]
      simp
    · rw [if_neg (by simpa using clean)]
      constructor
      · rintro ⟨⟩
        exact ⟨rfl, clean⟩
      · rintro ⟨rfl, -⟩
        rfl

/-- A violation of each kind. -/
example : violations
    [.ret 1 none,
      .expression (.this 0 2),
      .expression (.super 1 3 ⟨"m", 3⟩),
      .block [.varDecl ⟨"a", 4⟩ none, .varDecl ⟨"a", 5⟩ (some (.variable ⟨2, ⟨"a", 5⟩⟩))],
      .classDecl ⟨"A", 6⟩ (some ⟨3, ⟨"A", 6⟩⟩) [],
      .classDecl ⟨"B", 7⟩ none
        [⟨⟨"init", 8⟩, [⟨"x", 8⟩], [.varDecl ⟨"x", 9⟩ none, .expression (.super 4 10 ⟨"m", 10⟩),
          .ret 11 (some (.literal .nil)),
          .funDecl ⟨⟨"f", 12⟩, [], [.ret 12 (some (.this 5 12))]⟩]⟩]] =
    [⟨⟨"return", 1⟩, .returnAtTopLevel⟩, ⟨⟨"this", 2⟩, .thisOutsideClass⟩,
      ⟨⟨"super", 3⟩, .superOutsideClass⟩, ⟨⟨"a", 5⟩, .redeclared⟩, ⟨⟨"a", 5⟩, .readInInitializer⟩,
      ⟨⟨"A", 6⟩, .selfInheritance⟩, ⟨⟨"x", 9⟩, .redeclared⟩,
      ⟨⟨"super", 10⟩, .superWithoutSuperclass⟩, ⟨⟨"return", 11⟩, .returnFromInitializer⟩] := by
  decide

/-! ## 4. The resolution

What is filed for a node is read off the sites, since ids are distinct. -/

namespace Site

mutual

/-- The nodes at the sites of an expression are the nodes in it. -/
theorem ids_ofExpr (regions : List Region) (pending : Pending) :
    ∀ e : Expr, (ofExpr regions pending e).filterMap id? = e.ids
  | .literal _ => rfl
  | .grouping inner => ids_ofExpr regions pending inner
  | .unary _ _ operand => ids_ofExpr regions pending operand
  | .binary _ _ left right => by
    rw [ofExpr, List.filterMap_append, ids_ofExpr, ids_ofExpr, Expr.ids]
  | .logical _ _ left right => by
    rw [ofExpr, List.filterMap_append, ids_ofExpr, ids_ofExpr, Expr.ids]
  | .variable _ => rfl
  | .assign _ value => by
    rw [ofExpr, List.filterMap_append, ids_ofExpr, Expr.ids]
    rfl
  | .call callee arguments _ => by
    rw [ofExpr, List.filterMap_append, ids_ofExpr, ids_ofExprs, Expr.ids]
  | .get object _ => ids_ofExpr regions pending object
  | .set object _ value => by
    rw [ofExpr, List.filterMap_append, ids_ofExpr, ids_ofExpr, Expr.ids]
  | .this _ _ => rfl
  | .super _ _ _ => rfl
  | .list _ elements => ids_ofExprs regions pending elements

theorem ids_ofExprs (regions : List Region) (pending : Pending) :
    ∀ es : List Expr, (ofExprs regions pending es).filterMap id? = Expr.idsAll es
  | [] => rfl
  | e :: es => by
    rw [ofExprs, List.filterMap_append, ids_ofExpr, ids_ofExprs, Expr.idsAll]

end

theorem ids_ofOptional (regions : List Region) (pending : Pending) (e : Option Expr) :
    (ofOptional regions pending e).filterMap id? = Expr.idsOptional e := by
  cases e with
  | none => rfl
  | some e => exact ids_ofExpr regions pending e

theorem ids_params (regions : List Region) (names : List Name) :
    (names.map (declaring regions)).filterMap id? = [] := by
  rw [List.filterMap_map]
  exact List.filterMap_none names

mutual

/-- As for expressions. -/
theorem ids_ofStmt (address : TreeAddress) (regions : List Region) :
    ∀ s : Stmt, (ofStmt address regions s).filterMap id? = s.ids
  | .print _ value => ids_ofExpr regions none value
  | .expression value => ids_ofExpr regions none value
  | .varDecl name initializer => ids_ofOptional regions (some name.text) initializer
  | .block body => ids_ofStmts address 0 _ body
  | .ifElse condition thenBranch elseBranch => by
    rw [ofStmt, List.filterMap_append, List.filterMap_append, ids_ofExpr, ids_ofStmt,
      ids_ofOptionalStmt, Stmt.ids]
  | .whileLoop condition body => by
    rw [ofStmt, List.filterMap_append, ids_ofExpr, ids_ofStmt, Stmt.ids]
  | .forEach _ name iterable body => by
    rw [ofStmt, List.filterMap_append, ids_ofExpr, Stmt.ids]
    exact congrArg (iterable.ids ++ ·) (ids_ofStmt (0 :: address) _ body)
  | .funDecl declaration => ids_ofFunction .function address regions declaration
  | .ret _ value => ids_ofOptional regions none value
  | .classDecl name superclass methods => by
    rw [ofStmt, List.cons_append, List.filterMap_cons, List.filterMap_append, ids_ofMethods,
      Stmt.ids]
    cases superclass <;> rfl

theorem ids_ofOptionalStmt (address : TreeAddress) (regions : List Region) :
    ∀ s : Option Stmt, (ofOptionalStmt address regions s).filterMap id? = Stmt.idsOptional s
  | none => rfl
  | some s => ids_ofStmt address regions s

theorem ids_ofStmts (address : TreeAddress) (index : Nat) (regions : List Region) :
    ∀ body : List Stmt, (ofStmts address index regions body).filterMap id? = Stmt.idsAll body
  | [] => rfl
  | s :: rest => by
    rw [ofStmts, List.filterMap_append, ids_ofStmt, ids_ofStmts, Stmt.idsAll]

theorem ids_ofFunction (kind : RegionKind) (address : TreeAddress) (regions : List Region) :
    ∀ declaration : FunDecl,
      (ofFunction kind address regions declaration).filterMap id? = declaration.ids
  | ⟨_, params, body⟩ => by
    rw [ofFunction, List.filterMap_append, ids_params, ids_ofStmts, FunDecl.ids, List.nil_append]

theorem ids_ofMethods (address : TreeAddress) (index : Nat) (regions : List Region) :
    ∀ methods : List FunDecl,
      (ofMethods address index regions methods).filterMap id? = FunDecl.idsAll methods
  | [] => rfl
  | method :: rest => by
    rw [ofMethods, List.filterMap_append, ids_ofFunction, ids_ofMethods, FunDecl.idsAll]

end

/-- The sites of a program carry its ids. -/
theorem ids_ofProgram (program : List Stmt) :
    (ofProgram program).filterMap id? = Stmt.idsAll program :=
  ids_ofStmts [] 0 [] program

/-- A node at which there is no site keeps what it has. -/
theorem binding_fileFrom_of_notMem {sites : List Site} {id : Id}
    (h : id ∉ sites.filterMap id?) (earlier : List Site) (resolution : Resolution) :
    (fileFrom earlier sites resolution).binding id = resolution.binding id := by
  induction sites generalizing earlier resolution with
  | nil => rfl
  | cons site rest ih =>
    rw [fileFrom, ih]
    · rw [file]
      split
      · rename_i other hops hid _
        have ne : other ≠ id := by
          rintro rfl
          exact h (List.mem_filterMap.2 ⟨site, List.mem_cons_self, hid⟩)
        rw [Resolution.binding_insert, if_neg ne]
      · rfl
    · intro mem
      obtain ⟨other, hother, hid⟩ := List.mem_filterMap.1 mem
      exact h (List.mem_filterMap.2 ⟨other, List.mem_cons_of_mem _ hother, hid⟩)

/-- If ids are distinct, each site has the last word on its own. -/
theorem binding_fileFrom {sites : List Site} (distinct : (sites.filterMap id?).Nodup) {index : Nat}
    {site : Site} (found : sites[index]? = some site) {id : Id} (hid : site.id? = some id) :
    (fileFrom [] sites .empty).binding id =
      match site.hops? (sites.take index) with
      | some hops => .local hops
      | none => .global := by
  obtain ⟨lt, rfl⟩ := List.getElem?_eq_some_iff.1 found
  have split : sites = sites.take index ++ sites[index] :: sites.drop (index + 1) := by
    rw [← List.drop_eq_getElem_cons lt, List.take_append_drop]
  have parts := distinct
  rw [split, List.filterMap_append, List.filterMap_cons, hid] at parts
  obtain ⟨-, second, apart⟩ := List.nodup_append.1 parts
  have notBefore : id ∉ (sites.take index).filterMap id? :=
    fun mem => apart id mem id List.mem_cons_self rfl
  have notAfter : id ∉ (sites.drop (index + 1)).filterMap id? := (List.nodup_cons.1 second).1
  have filed : fileFrom [] sites .empty = fileFrom (sites.take index ++ [sites[index]])
      (sites.drop (index + 1))
      (sites[index].file (sites.take index) (fileFrom [] (sites.take index) .empty)) := by
    conv_lhs => rw [split, fileFrom_append, fileFrom]
    rfl
  rw [filed, binding_fileFrom_of_notMem notAfter, file, hid]
  cases sites[index].hops? (sites.take index) with
  | some hops => simp [Resolution.binding_insert]
  | none =>
    dsimp only
    rw [binding_fileFrom_of_notMem notBefore, Resolution.binding_empty]

end Site

/-- What the resolution of a program files for a site. -/
theorem resolve_binding {program : List Stmt} (distinct : (Stmt.idsAll program).Nodup)
    {resolution : Resolution} (resolved : resolve program = .ok resolution) {index : Nat}
    {site : Site} (found : (Site.ofProgram program)[index]? = some site) {id : Id}
    (hid : site.id? = some id) :
    resolution.binding id =
      match site.hops? ((Site.ofProgram program).take index) with
      | some hops => .local hops
      | none => .global := by
  obtain ⟨clean, rfl⟩ := resolve_eq_ok.1 resolved
  obtain ⟨reported, files⟩ := Resolve.finish_eq program
  rw [files (reported.symm.trans clean)]
  refine Site.binding_fileFrom ?_ found hid
  rw [Site.ids_ofProgram]
  exact distinct

/-- **The resolution is the lexical address.**  The nodes of a program are sites, and what is filed
for the node at a site is read off the text alone: if some of the regions around it has declared its
name before the node, it is the number of regions between the node and the innermost such region,
and otherwise there is no entry.  Nothing is filed for any other id. -/
theorem resolution_is_lexical (session : Session) (source : String) {program : List Stmt}
    {resolution : Resolution}
    (accepted : session.accepted? source = some (program, resolution)) :
    let sites := Site.ofProgram program
    sites.filterMap Site.id? = Stmt.idsAll program ∧
    (∀ (index : Nat) (site : Site) (id : Id), sites[index]? = some site → site.id? = some id →
      let declares := fun region : Region => region.Declares (sites.take index) site.name.text
      (∀ hops, resolution.binding id = .local hops ↔
        ∃ region, site.regions[hops]? = some region ∧ declares region ∧
          ∀ inner < hops, ∀ nearer, site.regions[inner]? = some nearer → ¬ declares nearer) ∧
      (resolution.binding id = .global ↔ ∀ region ∈ site.regions, ¬ declares region)) ∧
    ∀ id, id ∉ Stmt.idsAll program → resolution.binding id = .global := by
  intro sites
  obtain ⟨stream, scanned, parsed, -, resolved⟩ := Session.accepted?_eq_some accepted
  have made := (parse_made scanned session.nextId).2 program parsed
  refine ⟨Site.ids_ofProgram program, ?_, ?_⟩
  · intro index site id found hid declares
    rw [resolve_binding made.fresh.distinct resolved found hid]
    constructor
    · intro hops
      constructor
      · intro filed
        split at filed
        · rename_i hops' located
          cases filed
          obtain ⟨lt, here, nearer⟩ := List.findIdx?_eq_some_iff_getElem.1 located
          refine ⟨site.regions[hops], List.getElem?_eq_getElem lt, of_decide_eq_true here, ?_⟩
          intro inner hlt region hregion
          obtain ⟨_, rfl⟩ := List.getElem?_eq_some_iff.1 hregion
          exact of_decide_eq_false (by simpa using nearer inner hlt)
        · cases filed
      · rintro ⟨region, hregion, here, nearer⟩
        obtain ⟨lt, rfl⟩ := List.getElem?_eq_some_iff.1 hregion
        have located : site.hops? (sites.take index) = some hops := by
          refine List.findIdx?_eq_some_iff_getElem.2 ⟨lt, decide_eq_true here, ?_⟩
          intro inner hlt
          have inside : inner < site.regions.length := Nat.lt_trans hlt lt
          simpa using nearer inner hlt _ (List.getElem?_eq_getElem inside)
        rw [located]
    · constructor
      · intro filed region mem here
        split at filed
        · cases filed
        · rename_i located
          have nowhere := List.findIdx?_eq_none_iff.1 located region mem
          exact of_decide_eq_false nowhere here
      · intro nowhere
        have located : site.hops? (sites.take index) = none :=
          List.findIdx?_eq_none_iff.2 fun region mem => decide_eq_false (nowhere region mem)
        rw [located]
  · intro id foreign
    exact (Resolution.of_resolve made.good made.fresh.distinct resolved).2 id foreign

namespace Lexical

/-- An outer variable is read before and assigned behind a declaration that hides it. -/
def text : String := "\x7b var a; \x7b a; var a; a; \x7d a = b; \x7d"

/-- What the text says. -/
def program : List Stmt :=
  [.block [.varDecl ⟨"a", 1⟩ none,
    .block [.expression (.variable ⟨0, ⟨"a", 1⟩⟩), .varDecl ⟨"a", 1⟩ none,
      .expression (.variable ⟨1, ⟨"a", 1⟩⟩)],
    .expression (.assign ⟨4, ⟨"a", 1⟩⟩ (.variable ⟨3, ⟨"b", 1⟩⟩))]]

end Lexical

/-- The inner block reads the outer variable and then its own; behind it the assignment means the
outer one again, and the other name is left to the globals. -/
theorem hidden_variable_is_addressed :
    ∃ resolution, (Session.new ⟨[], true⟩ none 0).accepted? Lexical.text =
        some (Lexical.program, resolution) ∧
      resolution.binding 0 = .local 1 ∧ resolution.binding 1 = .local 0 ∧
      resolution.binding 4 = .local 0 ∧ resolution.binding 3 = .global := by
  have read : ((Session.new ⟨[], true⟩ none 0).accepted? Lexical.text).map Prod.fst =
      some Lexical.program := by cbv
  obtain ⟨⟨_, resolution⟩, accepted, rfl⟩ := Option.map_eq_some_iff.1 read
  obtain ⟨-, addressed, -⟩ := resolution_is_lexical _ _ accepted
  refine ⟨resolution, accepted, ?_, ?_, ?_, ?_⟩
  · refine ((addressed 1 _ 0 rfl rfl).1 1).2 ⟨_, rfl, by decide, ?_⟩
    intro inner hlt nearer found
    obtain rfl : inner = 0 := by omega
    cases found
    decide
  · exact ((addressed 3 _ 1 rfl rfl).1 0).2 ⟨_, rfl, by decide, by omega⟩
  · exact ((addressed 5 _ 4 rfl rfl).1 0).2 ⟨_, rfl, by decide, by omega⟩
  · exact (addressed 4 _ 3 rfl rfl).2.2 (by decide)

end Lox
