/-
# Declarations: what is declared in which region

`Declaration.ofProgram` lists the declarations of a program in the order of the text, with the
regions around each and whether a variable is declared or something that has a name of its own, a
function or a class.  They are the sites that declare (`Declaration.site_ofProgram`).

In a program that the resolver accepts no region declares a name twice (`Declaration.apart`), so the
name of a local variable is not the name of a function or a class in the same region.
-/
import Lox.Proofs.Scoping.Lexical

namespace Lox

/-- What a declaration gives a name to. -/
inductive DeclarationSort where
  /-- A `var`, a parameter, or the variable of a `foreach` loop. -/
  | variable
  /-- A function or a class. -/
  | definition
  deriving DecidableEq, Repr

/-- A declaration in a program, with the regions around it, innermost first. -/
structure Declaration where
  sort : DeclarationSort
  name : Name
  regions : List Region
  deriving DecidableEq, Repr

namespace Declaration

/-! ## 1. The declarations of a program

They are listed by recursion on the program, with the same regions as its sites. -/

/-- The site of a declaration. -/
def site (declaration : Declaration) : Site := .declaring declaration.regions declaration.name

mutual

/-- The declarations in a statement. -/
def ofStmt (address : TreeAddress) (regions : List Region) : Stmt → List Declaration
  | .print _ _ | .expression _ | .ret _ _ => []
  | .varDecl name _ => [⟨.variable, name, regions⟩]
  | .block body => ofStmts address 0 (⟨.block, address⟩ :: regions) body
  | .ifElse _ thenBranch elseBranch =>
    ofStmt (0 :: address) regions thenBranch ++ ofOptionalStmt (1 :: address) regions elseBranch
  | .whileLoop _ body => ofStmt (0 :: address) regions body
  | .forEach _ name _ body =>
    let inside := ⟨.iteration, address⟩ :: regions
    ⟨.variable, name, inside⟩ :: ofStmt (0 :: address) inside body
  | .funDecl declaration =>
    ⟨.definition, declaration.name, regions⟩ :: ofFunction .function address regions declaration
  | .classDecl name superclass methods =>
    ⟨.definition, name, regions⟩ ::
      ofMethods address 0 (Site.classRegions address regions superclass) methods

/-- The declarations in a statement, where there may be none. -/
def ofOptionalStmt (address : TreeAddress) (regions : List Region) :
    Option Stmt → List Declaration
  | none => []
  | some s => ofStmt address regions s

/-- The declarations in statements that stand one after the other, from the one with the given
index. -/
def ofStmts (address : TreeAddress) (index : Nat) (regions : List Region) :
    List Stmt → List Declaration
  | [] => []
  | s :: rest => ofStmt (index :: address) regions s ++ ofStmts address (index + 1) regions rest

/-- The declarations in a function; its own name is not among them. -/
def ofFunction (kind : RegionKind) (address : TreeAddress) (regions : List Region) :
    FunDecl → List Declaration
  | ⟨_, params, body⟩ =>
    let inside := ⟨kind, address⟩ :: regions
    params.map (⟨.variable, ·, inside⟩) ++ ofStmts address 0 inside body

/-- The declarations in the methods of a class, from the one with the given index. -/
def ofMethods (address : TreeAddress) (index : Nat) (regions : List Region) :
    List FunDecl → List Declaration
  | [] => []
  | method :: rest =>
    ofFunction (.method method.isInitializer) (index :: address) regions method ++
      ofMethods address (index + 1) regions rest

end

/-- The declarations in a program. -/
def ofProgram (program : List Stmt) : List Declaration := ofStmts [] 0 [] program

/-! ## 2. Declarations and sites

What a site does not tell is whether a variable is declared, or a function or a class. -/

/-- Whether a site declares a name. -/
def declares (site : Site) : Bool := site.kind = .declares

/-- Expressions declare nothing. -/
theorem filter_ofExpr (regions : List Region) (pending : Pending) (e : Expr) :
    (Site.ofExpr regions pending e).filter declares = [] :=
  List.filter_eq_nil_iff.2 fun site mem declared =>
    (Site.regions_of_mem_ofExpr regions pending e site mem).2 (of_decide_eq_true declared)

theorem filter_ofOptional (regions : List Region) (pending : Pending) (e : Option Expr) :
    (Site.ofOptional regions pending e).filter declares = [] := by
  cases e with
  | none => rfl
  | some e => exact filter_ofExpr regions pending e

theorem filter_ofSuperclass (regions : List Region) (name : Name) (superclass : Option Variable) :
    (Site.ofSuperclass regions name superclass).filter declares = [] := by
  cases superclass <;> rfl

/-- Parameters are variables of the region of their function. -/
theorem filter_params (regions : List Region) (params : List Name) :
    (params.map (Site.declaring regions)).filter declares =
      (params.map (⟨.variable, ·, regions⟩)).map site := by
  induction params with
  | nil => rfl
  | cons name rest ih => exact congrArg (Site.declaring regions name :: ·) ih

mutual

/-- The declarations of a statement are those of its sites that declare. -/
theorem filter_ofStmt (address : TreeAddress) (regions : List Region) : ∀ s : Stmt,
    (Site.ofStmt address regions s).filter declares = (ofStmt address regions s).map site
  | .print _ value => filter_ofExpr regions none value
  | .expression value => filter_ofExpr regions none value
  | .varDecl name initializer =>
    congrArg (Site.declaring regions name :: ·) (filter_ofOptional regions _ initializer)
  | .block body => filter_ofStmts address 0 _ body
  | .ifElse condition thenBranch elseBranch => by
    rw [Site.ofStmt, ofStmt, List.filter_append, List.filter_append, List.map_append,
      filter_ofExpr, List.nil_append, filter_ofStmt (0 :: address) regions thenBranch,
      filter_ofOptionalStmt (1 :: address) regions elseBranch]
  | .whileLoop condition body => by
    rw [Site.ofStmt, ofStmt, List.filter_append, filter_ofExpr, List.nil_append,
      filter_ofStmt (0 :: address) regions body]
  | .forEach _ name iterable body => by
    rw [Site.ofStmt, List.filter_append, filter_ofExpr, List.nil_append]
    exact congrArg (Site.declaring (⟨.iteration, address⟩ :: regions) name :: ·)
      (filter_ofStmt (0 :: address) _ body)
  | .funDecl declaration =>
    congrArg (Site.declaring regions declaration.name :: ·)
      (filter_ofFunction .function address regions declaration)
  | .ret _ value => filter_ofOptional regions none value
  | .classDecl name superclass methods => by
    rw [Site.ofStmt, List.filter_append, List.filter_cons, filter_ofSuperclass]
    exact congrArg (Site.declaring regions name :: ·) (filter_ofMethods address 0 _ methods)

theorem filter_ofOptionalStmt (address : TreeAddress) (regions : List Region) :
    ∀ s : Option Stmt, (Site.ofOptionalStmt address regions s).filter declares =
      (ofOptionalStmt address regions s).map site
  | none => rfl
  | some s => filter_ofStmt address regions s

theorem filter_ofStmts (address : TreeAddress) (index : Nat) (regions : List Region) :
    ∀ body : List Stmt, (Site.ofStmts address index regions body).filter declares =
      (ofStmts address index regions body).map site
  | [] => rfl
  | s :: rest => by
    rw [Site.ofStmts, ofStmts, List.filter_append, List.map_append,
      filter_ofStmt (index :: address) regions s,
      filter_ofStmts address (index + 1) regions rest]

/-- So it is for functions. -/
theorem filter_ofFunction (kind : RegionKind) (address : TreeAddress) (regions : List Region) :
    ∀ declaration : FunDecl, (Site.ofFunction kind address regions declaration).filter declares =
      (ofFunction kind address regions declaration).map site
  | ⟨_, params, body⟩ => by
    rw [Site.ofFunction, ofFunction, List.filter_append, List.map_append, filter_params,
      filter_ofStmts address 0 _ body]

theorem filter_ofMethods (address : TreeAddress) (index : Nat) (regions : List Region) :
    ∀ methods : List FunDecl, (Site.ofMethods address index regions methods).filter declares =
      (ofMethods address index regions methods).map site
  | [] => rfl
  | method :: rest => by
    rw [Site.ofMethods, ofMethods, List.filter_append, List.map_append,
      filter_ofFunction _ (index :: address) regions method,
      filter_ofMethods address (index + 1) regions rest]

end

/-- The declarations are the sites that declare. -/
theorem site_ofProgram (program : List Stmt) :
    (Site.ofProgram program).filter declares = (ofProgram program).map site :=
  filter_ofStmts [] 0 [] program

/-! ## 3. Where variables are declared

The regions of `this` and `super` have no declarations in them. -/

/-- A region in which a program can declare something, if there is one: in the regions of `this`
and `super` there are only methods. -/
def Plain (regions : List Region) : Prop :=
  ∀ region, regions.head? = some region → region.kind.bound? = none

/-- Top-level code has no region around it. -/
theorem Plain.nil : Plain [] := fun _ head => by cases head

/-- Regions that bind no name by themselves. -/
theorem Plain.cons {kind : RegionKind} (plain : kind.bound? = none) (address : TreeAddress)
    (regions : List Region) : Plain (⟨kind, address⟩ :: regions) := by
  rintro _ ⟨⟩
  exact plain

/-- What declarations are like in programs that have been read. -/
structure Proper (declaration : Declaration) : Prop where
  ordinary : Ordinary declaration.name.text
  plain : Plain declaration.regions

mutual

/-- A variable is declared in a region that binds no name by itself, and under an ordinary name. -/
theorem proper_ofStmt (address : TreeAddress) {regions : List Region} (plain : Plain regions) :
    ∀ s : Stmt, s.Grammatical → ∀ declaration ∈ ofStmt address regions s, declaration.Proper
  | .print _ _, _ | .expression _, _ | .ret _ _, _ => fun _ mem => by cases mem
  | .varDecl _ _, h => List.forall_mem_singleton.2 ⟨h.1, plain⟩
  | .block body, h => proper_ofStmts address 0 (.cons rfl address regions) body h
  | .ifElse _ thenBranch elseBranch, h => List.forall_mem_append.2
    ⟨proper_ofStmt (0 :: address) plain thenBranch h.2.1.2,
      proper_ofOptionalStmt (1 :: address) plain elseBranch h.2.2⟩
  | .whileLoop _ body, h => proper_ofStmt (0 :: address) plain body h.2.2
  | .forEach _ _ _ body, h => List.forall_mem_cons.2
    ⟨⟨h.1, .cons rfl address regions⟩,
      proper_ofStmt (0 :: address) (.cons rfl address regions) body h.2.2.2⟩
  | .funDecl declaration, h => List.forall_mem_cons.2
    ⟨⟨h.1, plain⟩, proper_ofFunction rfl address regions declaration h.2⟩
  | .classDecl _ superclass methods, h => List.forall_mem_cons.2
    ⟨⟨h.1, plain⟩, proper_ofMethods address 0 (Site.classRegions address regions superclass)
      methods h.2⟩

theorem proper_ofOptionalStmt (address : TreeAddress) {regions : List Region}
    (plain : Plain regions) : ∀ s : Option Stmt, Stmt.GrammaticalBranch s →
      ∀ declaration ∈ ofOptionalStmt address regions s, declaration.Proper
  | none, _ => fun _ mem => by cases mem
  | some s, h => proper_ofStmt address plain s h.2

theorem proper_ofStmts (address : TreeAddress) (index : Nat) {regions : List Region}
    (plain : Plain regions) : ∀ body : List Stmt, Stmt.GrammaticalAll body →
      ∀ declaration ∈ ofStmts address index regions body, declaration.Proper
  | [], _ => fun _ mem => by cases mem
  | s :: rest, h => List.forall_mem_append.2
    ⟨proper_ofStmt (index :: address) plain s h.1,
      proper_ofStmts address (index + 1) plain rest h.2⟩

/-- So are the parameters of a function. -/
theorem proper_ofFunction {kind : RegionKind} (unbound : kind.bound? = none)
    (address : TreeAddress) (regions : List Region) : ∀ function : FunDecl,
      function.Grammatical → ∀ declaration ∈ ofFunction kind address regions function,
        declaration.Proper
  | ⟨_, params, body⟩, h => by
    have inside := Plain.cons unbound address regions
    refine List.forall_mem_append.2 ⟨?_, proper_ofStmts address 0 inside body h.2⟩
    exact List.forall_mem_map.2 fun name mem => ⟨h.1 name mem, inside⟩

theorem proper_ofMethods (address : TreeAddress) (index : Nat) (regions : List Region) :
    ∀ methods : List FunDecl, FunDecl.GrammaticalAll methods →
      ∀ declaration ∈ ofMethods address index regions methods, declaration.Proper
  | [], _ => fun _ mem => by cases mem
  | method :: rest, h => List.forall_mem_append.2
    ⟨proper_ofFunction rfl (index :: address) regions method h.1,
      proper_ofMethods address (index + 1) regions rest h.2⟩

end

/-- A region in which something is declared is that of a block, of a loop or of a function. -/
theorem proper_ofProgram {program : List Stmt} (grammatical : Stmt.GrammaticalAll program) :
    ∀ declaration ∈ ofProgram program, declaration.Proper :=
  proper_ofStmts [] 0 .nil program grammatical

/-! ## 4. No name is declared twice

This is what acceptance means for declarations. -/

/-- Two declarations are not of one name in one region. -/
def Apart (a b : Declaration) : Prop :=
  ∀ region, a.regions.head? = some region → b.regions.head? = some region →
    a.name.text ≠ b.name.text

instance : Std.Symm Apart := ⟨fun _ _ apart region head head' => (apart region head' head).symm⟩

/-- Where nothing is wrong, no site declares what a site before it does in the same region. -/
theorem pairwise_sites {sites : List Site} (clean : Site.errorsFrom [] sites = []) :
    (sites.filter declares).Pairwise fun a b => ∀ region, a.regions.head? = some region →
      b.regions.head? = some region → a.name.text ≠ b.name.text := by
  rw [List.pairwise_filter]
  refine List.pairwise_iff_getElem.2 fun i j hi hj lt first second region head head' same => ?_
  have violation := (Site.errorsFrom_eq_nil [] sites).1 clean j sites[j]
    (List.getElem?_eq_getElem hj)
  have before : sites[i] ∈ sites.take j :=
    List.mem_take_iff_getElem.2 ⟨i, Nat.lt_min.2 ⟨lt, hi⟩, rfl⟩
  have twice : region.Declares (sites.take j) sites[j].name.text :=
    .inr ⟨_, before, of_decide_eq_true first, same, head⟩
  unfold Site.violation? at violation
  rw [of_decide_eq_true second, head', List.nil_append] at violation
  dsimp only at violation
  rw [Option.any_some, if_pos (decide_eq_true twice)] at violation
  cases violation

/-- **In an accepted program no region declares a name twice.** -/
theorem apart {program : List Stmt} {resolution : Resolution}
    (resolved : resolve program = .ok resolution) {a b : Declaration}
    (mem : a ∈ ofProgram program) (mem' : b ∈ ofProgram program) (ne : a ≠ b) : a.Apart b := by
  obtain ⟨clean, -⟩ := resolve_eq_ok.1 resolved
  have pairwise := pairwise_sites ((Resolve.finish_eq program).1.symm.trans clean)
  rw [site_ofProgram, List.pairwise_map] at pairwise
  have all : (ofProgram program).Pairwise Apart := pairwise
  exact all.forall mem mem' ne

end Declaration

/-- A program declares a variable of some name in a region. -/
def Region.DeclaresVariable (region : Region) (program : List Stmt) (name : String) : Prop :=
  ∃ declaration ∈ Declaration.ofProgram program, declaration.sort = .variable ∧
    declaration.regions.head? = some region ∧ declaration.name.text = name

instance (region : Region) (program : List Stmt) (name : String) :
    Decidable (region.DeclaresVariable program name) :=
  inferInstanceAs (Decidable (∃ _ ∈ _, _))

end Lox
