/-
# Sites: what a text shows about its names

A program is a tree, and its local scopes are regions of the tree: blocks, the turns of `foreach`
loops, the bodies of functions and methods together with their parameters, and around the methods
of a class the regions of `this` and `super`.  A `Region` is known by the address of the construct
in the tree.

`Site.ofProgram` lists the places where something is said about names, in the order of the text,
each with the regions around it.  Nothing is looked up on the way: what is declared where is read
off the list afterwards (`Region.Declares`), and so is everything that there is to say statically,

* what is wrong at a site (`Site.violation?`), and
* how many regions out its name is declared (`Site.hops?`).

Two things come in another order than in the text: the target of an assignment behind the value, and
the increment of a `for` loop behind the body.  Nothing depends on it, as expressions and the bodies
of loops declare nothing in the regions around them.
-/
import Lox.Proofs.Syntax.Grammar
import Lox.Resolution.Resolve

namespace Lox

/-! ## 1. Regions -/

/-- A place in a tree: the way to it from the root, the last step first. -/
abbrev TreeAddress := List Nat

/-- What kind of construct a region belongs to. -/
inductive RegionKind where
  | block
  /-- The turns of a `foreach` loop, with its variable. -/
  | iteration
  /-- The parameters and the body of a function. -/
  | function
  /-- The parameters and the body of a method. -/
  | method (initializer : Bool)
  /-- The methods of a class, around which `this` is bound. -/
  | this (derived : Bool)
  /-- The methods of a class with a superclass, around which `super` is bound. -/
  | super
  deriving DecidableEq, Repr

/-- A part of a program that is a local scope. -/
structure Region where
  kind : RegionKind
  address : TreeAddress
  deriving DecidableEq, Repr

namespace RegionKind

/-- The name that a region binds without a declaration. -/
def bound? : RegionKind → Option String
  | this _ => some "this"
  | super => some "super"
  | _ => none

/-- Whether a region is the body of a function or method. -/
def isFunction : RegionKind → Bool
  | function | method _ => true
  | _ => false

/-- Whether a region is the body of a class. -/
def isClass : RegionKind → Bool
  | this _ => true
  | _ => false

end RegionKind

/-- The nearest function or method around a place. -/
def Region.function? (regions : List Region) : Option RegionKind :=
  (regions.map Region.kind).find? RegionKind.isFunction

/-- The nearest class around a place. -/
def Region.class? (regions : List Region) : Option RegionKind :=
  (regions.map Region.kind).find? RegionKind.isClass

/-! ## 2. Sites -/

/-- What is said at a site. -/
inductive SiteKind where
  | declares
  | reads (id : Id)
  /-- The variable after the `<` of a class. -/
  | inherits (id : Id) (className : String)
  | writes (id : Id)
  | this (id : Id)
  | super (id : Id)
  | returns (hasValue : Bool)
  deriving DecidableEq, Repr

/-- A place in a program, with the regions around it, innermost first. -/
structure Site where
  kind : SiteKind
  /-- The name or keyword at the place. -/
  name : Name
  regions : List Region
  /-- The `var` in whose initializer the place lies. -/
  initializes : Option String
  deriving DecidableEq, Repr

namespace Site

/-- The id of the node, if there is one. -/
def id? (site : Site) : Option Id :=
  match site.kind with
  | .declares | .returns _ => none
  | .reads id | .inherits id _ | .writes id | .this id | .super id => some id

/-- The declaration of a name. -/
def declaring (regions : List Region) (name : Name) : Site := ⟨.declares, name, regions, none⟩

mutual

/-- The sites in an expression. -/
def ofExpr (regions : List Region) (initializes : Option String) : Expr → List Site
  | .literal _ => []
  | .grouping inner => ofExpr regions initializes inner
  | .unary _ _ operand => ofExpr regions initializes operand
  | .binary _ _ left right =>
    ofExpr regions initializes left ++ ofExpr regions initializes right
  | .logical _ _ left right =>
    ofExpr regions initializes left ++ ofExpr regions initializes right
  | .variable v => [⟨.reads v.id, v.name, regions, initializes⟩]
  | .assign target value =>
    ofExpr regions initializes value ++ [⟨.writes target.id, target.name, regions, initializes⟩]
  | .call callee arguments _ =>
    ofExpr regions initializes callee ++ ofExprs regions initializes arguments
  | .get object _ => ofExpr regions initializes object
  | .set object _ value => ofExpr regions initializes value ++ ofExpr regions initializes object
  | .this id line => [⟨.this id, ⟨"this", line⟩, regions, initializes⟩]
  | .super id line _ => [⟨.super id, ⟨"super", line⟩, regions, initializes⟩]
  | .list _ elements => ofExprs regions initializes elements

/-- The sites in a list of expressions. -/
def ofExprs (regions : List Region) (initializes : Option String) : List Expr → List Site
  | [] => []
  | e :: es => ofExpr regions initializes e ++ ofExprs regions initializes es

end

/-- The sites in an expression, where there may be none. -/
def ofOptional (regions : List Region) (initializes : Option String) : Option Expr → List Site
  | none => []
  | some e => ofExpr regions initializes e

/-- The regions around the methods of a class. -/
def classRegions (address : TreeAddress) (regions : List Region) : Option Variable → List Region
  | none => ⟨.this false, address⟩ :: regions
  | some _ => ⟨.this true, address⟩ :: ⟨.super, address⟩ :: regions

/-- The site of a superclass. -/
def ofSuperclass (regions : List Region) (name : Name) : Option Variable → List Site
  | none => []
  | some parent => [⟨.inherits parent.id name.text, parent.name, regions, none⟩]

mutual

/-- The sites in a statement. -/
def ofStmt (address : TreeAddress) (regions : List Region) : Stmt → List Site
  | .print _ value => ofExpr regions none value
  | .expression value => ofExpr regions none value
  | .varDecl name initializer =>
    declaring regions name :: ofOptional regions (some name.text) initializer
  | .block body => ofStmts address 0 (⟨.block, address⟩ :: regions) body
  | .ifElse condition thenBranch elseBranch =>
    ofExpr regions none condition ++ ofStmt (0 :: address) regions thenBranch ++
      ofOptionalStmt (1 :: address) regions elseBranch
  | .whileLoop condition body =>
    ofExpr regions none condition ++ ofStmt (0 :: address) regions body
  | .forEach _ name iterable body =>
    let inside := ⟨.iteration, address⟩ :: regions
    ofExpr regions none iterable ++ declaring inside name :: ofStmt (0 :: address) inside body
  | .funDecl declaration =>
    declaring regions declaration.name :: ofFunction .function address regions declaration
  | .ret line value =>
    ⟨.returns value.isSome, ⟨"return", line⟩, regions, none⟩ :: ofOptional regions none value
  | .classDecl name superclass methods =>
    declaring regions name :: ofSuperclass regions name superclass ++
      ofMethods address 0 (classRegions address regions superclass) methods

/-- The sites in a statement, where there may be none. -/
def ofOptionalStmt (address : TreeAddress) (regions : List Region) : Option Stmt → List Site
  | none => []
  | some s => ofStmt address regions s

/-- The sites in statements that stand one after the other, from the one with the given index. -/
def ofStmts (address : TreeAddress) (index : Nat) (regions : List Region) : List Stmt → List Site
  | [] => []
  | s :: rest => ofStmt (index :: address) regions s ++ ofStmts address (index + 1) regions rest

/-- The sites in a function, whose parameters and body share a region. -/
def ofFunction (kind : RegionKind) (address : TreeAddress) (regions : List Region) :
    FunDecl → List Site
  | ⟨_, params, body⟩ =>
    let inside := ⟨kind, address⟩ :: regions
    params.map (declaring inside) ++ ofStmts address 0 inside body

/-- The sites in the methods of a class, from the one with the given index. -/
def ofMethods (address : TreeAddress) (index : Nat) (regions : List Region) :
    List FunDecl → List Site
  | [] => []
  | method :: rest =>
    ofFunction (.method method.isInitializer) (index :: address) regions method ++
      ofMethods address (index + 1) regions rest

end

/-- The sites in a program. -/
def ofProgram (program : List Stmt) : List Site := ofStmts [] 0 [] program

end Site

/-! ## 3. What can be read off the sites -/

/-- A region declares a name by itself, or by one of the sites so far that declares it there. -/
def Region.Declares (region : Region) (earlier : List Site) (name : String) : Prop :=
  region.kind.bound? = some name ∨
    ∃ site ∈ earlier, site.kind = .declares ∧ site.name.text = name ∧
      site.regions.head? = some region

instance (region : Region) (earlier : List Site) (name : String) :
    Decidable (region.Declares earlier name) :=
  inferInstanceAs (Decidable (_ ∨ _))

namespace Site

/-- What is wrong at a site, given the sites before it.

* A name may be declared in a local scope once.
* A local `var` may not be read in its own initializer.
* A class may not have a superclass of its own name.
* `this` and `super` need a class around them, `super` one with a superclass.
* `return` needs a function around it, and may not have a value if that is an initializer. -/
def violation? (site : Site) (earlier : List Site) : Option ResolutionCause :=
  match site.kind with
  | .declares =>
    if site.regions.head?.any (·.Declares earlier site.name.text) then some .redeclared else none
  | .reads _ =>
    if site.initializes = some site.name.text ∧ site.regions ≠ [] then some .readInInitializer
    else none
  | .inherits _ className => if site.name.text = className then some .selfInheritance else none
  | .writes _ => none
  | .this _ =>
    match Region.class? site.regions with
    | none => some .thisOutsideClass
    | some _ => none
  | .super _ =>
    match Region.class? site.regions with
    | none => some .superOutsideClass
    | some (.this false) => some .superWithoutSuperclass
    | some _ => none
  | .returns hasValue =>
    match Region.function? site.regions with
    | none => some .returnAtTopLevel
    | some (.method true) => if hasValue then some .returnFromInitializer else none
    | some _ => none

/-- The static error at a site, if there is one. -/
def error? (site : Site) (earlier : List Site) : Option ResolutionError :=
  (site.violation? earlier).map fun cause => ⟨site.name, cause⟩

/-- How many regions out the innermost one lies that declares the name at a site. -/
def hops? (site : Site) (earlier : List Site) : Option Nat :=
  site.regions.findIdx? fun region => decide (region.Declares earlier site.name.text)

end Site

/-- The static errors of a program: one for each violation, in the order of the sites. -/
def violations (program : List Stmt) : List ResolutionError :=
  let sites := Site.ofProgram program
  sites.zipIdx.filterMap fun (site, index) => site.error? (sites.take index)

end Lox
