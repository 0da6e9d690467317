/-
# Programs in which local variables have another name

A `Renaming` gives the variables of one name another name, in some of the local scopes of a program.
`Marks` tell in which of the scopes around a place: two programs are related (`Stmt.Renamed`) if one
can go through both and mark each scope, where it opens, so that

* a declaration has the new name if its scope is marked,
* a node that refers to a variable has the new name if the resolution leads to a marked scope, and
* nothing else differs.

Functions and classes keep their names, which can be printed, so the old name may not be declared
for one of them in a marked scope; and in a marked scope the new name is not in use.
-/
import Lox.Proofs.Syntax.Grammar
import Lox.Proofs.Syntax.Likeness
import Lox.Resolution.Basic

namespace Lox

/-- A name of local variables, and the name that they get instead. -/
structure Renaming where
  old : String
  new : String
  deriving DecidableEq, Repr

/-- For each of the local scopes around a place, innermost first, whether the name changes in it. -/
abbrev Marks := List Bool

/-! ## 1. Names

A scope that is marked has one name for another.  The new name may not be used in it already. -/

namespace Renaming

/-- What a name in a scope becomes. -/
inductive Names (ρ : Renaming) : (marked : Bool) → String → String → Prop
  | unmarked (name : String) : Names ρ false name name
  | other {name : String} (old : name ≠ ρ.old) (new : name ≠ ρ.new) : Names ρ true name name
  | renamed : Names ρ true ρ.old ρ.new

/-- Neither of the two names is reserved. -/
structure Ordinary (ρ : Renaming) : Prop where
  old : Lox.Ordinary ρ.old
  new : Lox.Ordinary ρ.new

variable {ρ : Renaming} {marked : Bool} {name name' other other' : String}

/-- Names stay apart. -/
theorem Names.eq_iff (h : ρ.Names marked name name') (h' : ρ.Names marked other other') :
    name = other ↔ name' = other' := by
  cases h with
  | unmarked => cases h'; rfl
  | other old new =>
    cases h' with
    | other => rfl
    | renamed => exact iff_of_false old new
  | renamed =>
    cases h' with
    | other old new => exact iff_of_false (Ne.symm old) (Ne.symm new)
    | renamed => exact iff_of_true rfl rfl

/-- In a marked scope nothing gets the old name. -/
theorem Names.ne_old (ne : ρ.old ≠ ρ.new) (h : ρ.Names true name name') : name' ≠ ρ.old := by
  cases h with
  | other old => exact old
  | renamed => exact ne.symm

/-- Reserved names stay as they are. -/
theorem Names.this (h : ρ.Ordinary) (marked : Bool) : ρ.Names marked "this" "this" := by
  cases marked with
  | false => exact .unmarked _
  | true => exact .other h.old.1.symm h.new.1.symm

theorem Names.super (h : ρ.Ordinary) (marked : Bool) : ρ.Names marked "super" "super" := by
  cases marked with
  | false => exact .unmarked _
  | true => exact .other h.old.2.symm h.new.2.symm

/-- Where the new name is the old one, nothing changes. -/
theorem Names.eq (same : ρ.old = ρ.new) (h : ρ.Names marked name name') : name = name' := by
  cases h with
  | unmarked | other => rfl
  | renamed => exact same

/-- If both names are the same, every name stays as it is. -/
theorem Names.of_same (same : ρ.old = ρ.new) (marked : Bool) (name : String) :
    ρ.Names marked name name := by
  cases marked with
  | false => exact .unmarked _
  | true =>
    by_cases old : name = ρ.old
    · have changed : ρ.Names true ρ.old ρ.new := .renamed
      rwa [← same, ← old] at changed
    · exact .other old (same ▸ old)

end Renaming

/-- Whether the scope that the name at a node is bound in is marked. -/
def Resolution.mark (r : Resolution) (marks : Marks) (id : Id) : Bool :=
  match r.binding id with
  | .local hops => marks.getD hops false
  | .global => false

/-- A name and what becomes of it. -/
structure Name.Renamed (ρ : Renaming) (marked : Bool) (name name' : Name) : Prop where
  text : ρ.Names marked name.text name'.text
  line : name.line = name'.line

/-- A variable and what becomes of it. -/
structure Variable.Renamed (ρ : Renaming) (r : Resolution) (marks : Marks) (v v' : Variable) :
    Prop where
  id : v.id = v'.id
  name : v.name.Renamed ρ (r.mark marks v.id) v'.name

/-! ## 2. Expressions

Names in expressions are those of nodes, and the mark is found by way of the resolution. -/

mutual

/-- An expression and what becomes of it. -/
inductive Expr.Renamed (ρ : Renaming) (r : Resolution) (marks : Marks) : Expr → Expr → Prop
  | literal (value : Literal) : Renamed ρ r marks (.literal value) (.literal value)
  | grouping {e e' : Expr} (inner : e.Renamed ρ r marks e') :
      Renamed ρ r marks (.grouping e) (.grouping e')
  | unary (op : UnaryOp) (line : Nat) {e e' : Expr} (operand : e.Renamed ρ r marks e') :
      Renamed ρ r marks (.unary op line e) (.unary op line e')
  | binary (op : BinaryOp) (line : Nat) {left left' right right' : Expr}
      (first : left.Renamed ρ r marks left') (second : right.Renamed ρ r marks right') :
      Renamed ρ r marks (.binary op line left right) (.binary op line left' right')
  | logical (op : LogicalOp) (line : Nat) {left left' right right' : Expr}
      (first : left.Renamed ρ r marks left') (second : right.Renamed ρ r marks right') :
      Renamed ρ r marks (.logical op line left right) (.logical op line left' right')
  | variable {v v' : Variable} (occurrence : v.Renamed ρ r marks v') :
      Renamed ρ r marks (.variable v) (.variable v')
  | assign {v v' : Variable} {e e' : Expr} (target : v.Renamed ρ r marks v')
      (value : e.Renamed ρ r marks e') : Renamed ρ r marks (.assign v e) (.assign v' e')
  | call {e e' : Expr} {es es' : List Expr} (callee : e.Renamed ρ r marks e')
      (arguments : RenamedAll ρ r marks es es') (line : Nat) :
      Renamed ρ r marks (.call e es line) (.call e' es' line)
  | get {e e' : Expr} (object : e.Renamed ρ r marks e') (property : Name) :
      Renamed ρ r marks (.get e property) (.get e' property)
  | set {o o' e e' : Expr} (object : o.Renamed ρ r marks o') (property : Name)
      (value : e.Renamed ρ r marks e') :
      Renamed ρ r marks (.set o property e) (.set o' property e')
  | this (id : Id) (line : Nat) : Renamed ρ r marks (.this id line) (.this id line)
  | super (id : Id) (line : Nat) (method : Name) :
      Renamed ρ r marks (.super id line method) (.super id line method)
  | list (line : Nat) {es es' : List Expr} (elements : RenamedAll ρ r marks es es') :
      Renamed ρ r marks (.list line es) (.list line es')

/-- Expressions and what becomes of them, one by one. -/
inductive Expr.RenamedAll (ρ : Renaming) (r : Resolution) (marks : Marks) :
    List Expr → List Expr → Prop
  | nil : RenamedAll ρ r marks [] []
  | cons {e e' : Expr} {es es' : List Expr} (first : e.Renamed ρ r marks e')
      (rest : RenamedAll ρ r marks es es') : RenamedAll ρ r marks (e :: es) (e' :: es')

end

/-! ## 3. Statements

Names in statements are declared, and the mark is that of the innermost scope.  Where a scope opens
its mark may be chosen. -/

/-- The marks around the methods of a class, which has a superclass or not; the scope of `this`
apart. -/
def Marks.ofClass (marks : Marks) (derived : Bool) : Marks :=
  if derived then false :: marks else marks

mutual

/-- A statement and what becomes of it. -/
inductive Stmt.Renamed (ρ : Renaming) (r : Resolution) : Marks → Stmt → Stmt → Prop
  | print {marks : Marks} (line : Nat) {e e' : Expr} (value : e.Renamed ρ r marks e') :
      Stmt.Renamed ρ r marks (.print line e) (.print line e')
  | expression {marks : Marks} {e e' : Expr} (value : e.Renamed ρ r marks e') :
      Stmt.Renamed ρ r marks (.expression e) (.expression e')
  | varDecl {marks : Marks} {name name' : Name} {value value' : Option Expr}
      (names : name.Renamed ρ (marks.headD false) name')
      (initializer : Option.Rel (Expr.Renamed ρ r marks) value value') :
      Stmt.Renamed ρ r marks (.varDecl name value) (.varDecl name' value')
  | block {marks : Marks} (mark : Bool) {body body' : List Stmt}
      (statements : Stmt.RenamedAll ρ r (mark :: marks) body body') :
      Stmt.Renamed ρ r marks (.block body) (.block body')
  | ifThen {marks : Marks} {e e' : Expr} {s s' : Stmt} (condition : e.Renamed ρ r marks e')
      (branch : Stmt.Renamed ρ r marks s s') :
      Stmt.Renamed ρ r marks (.ifElse e s none) (.ifElse e' s' none)
  | ifElse {marks : Marks} {e e' : Expr} {s s' t t' : Stmt} (condition : e.Renamed ρ r marks e')
      (branch : Stmt.Renamed ρ r marks s s') (otherwise : Stmt.Renamed ρ r marks t t') :
      Stmt.Renamed ρ r marks (.ifElse e s (some t)) (.ifElse e' s' (some t'))
  | whileLoop {marks : Marks} {e e' : Expr} {s s' : Stmt} (condition : e.Renamed ρ r marks e')
      (body : Stmt.Renamed ρ r marks s s') :
      Stmt.Renamed ρ r marks (.whileLoop e s) (.whileLoop e' s')
  | forEach {marks : Marks} (mark : Bool) (line : Nat) {name name' : Name} {e e' : Expr}
      {s s' : Stmt} (names : name.Renamed ρ mark name') (iterable : e.Renamed ρ r marks e')
      (body : Stmt.Renamed ρ r (mark :: marks) s s') :
      Stmt.Renamed ρ r marks (.forEach line name e s) (.forEach line name' e' s')
  | funDecl {marks : Marks} {d d' : FunDecl}
      (kept : ρ.Names (marks.headD false) d.name.text d.name.text)
      (declared : FunDecl.Renamed ρ r marks d d') :
      Stmt.Renamed ρ r marks (.funDecl d) (.funDecl d')
  | ret {marks : Marks} (line : Nat) {value value' : Option Expr}
      (given : Option.Rel (Expr.Renamed ρ r marks) value value') :
      Stmt.Renamed ρ r marks (.ret line value) (.ret line value')
  | classDecl {marks : Marks} (name : Name) {v v' : Option Variable}
      {methods methods' : List FunDecl}
      (kept : ρ.Names (marks.headD false) name.text name.text)
      (superclass : Option.Rel (Variable.Renamed ρ r marks) v v')
      (declared : FunDecl.RenamedAll ρ r (false :: marks.ofClass v.isSome) methods methods') :
      Stmt.Renamed ρ r marks (.classDecl name v methods) (.classDecl name v' methods')

/-- Statements and what becomes of them, one by one. -/
inductive Stmt.RenamedAll (ρ : Renaming) (r : Resolution) :
    Marks → List Stmt → List Stmt → Prop
  | nil {marks : Marks} : Stmt.RenamedAll ρ r marks [] []
  | cons {marks : Marks} {s s' : Stmt} {body body' : List Stmt}
      (first : Stmt.Renamed ρ r marks s s') (rest : Stmt.RenamedAll ρ r marks body body') :
      Stmt.RenamedAll ρ r marks (s :: body) (s' :: body')

/-- A function and what becomes of it; its name stays. -/
inductive FunDecl.Renamed (ρ : Renaming) (r : Resolution) : Marks → FunDecl → FunDecl → Prop
  | mk {marks : Marks} (mark : Bool) (name : Name) {params params' : List Name}
      {body body' : List Stmt} (parameters : List.Forall₂ (Name.Renamed ρ mark) params params')
      (statements : Stmt.RenamedAll ρ r (mark :: marks) body body') :
      FunDecl.Renamed ρ r marks ⟨name, params, body⟩ ⟨name, params', body'⟩

/-- Functions and what becomes of them, one by one. -/
inductive FunDecl.RenamedAll (ρ : Renaming) (r : Resolution) :
    Marks → List FunDecl → List FunDecl → Prop
  | nil {marks : Marks} : FunDecl.RenamedAll ρ r marks [] []
  | cons {marks : Marks} {d d' : FunDecl} {rest rest' : List FunDecl}
      (first : FunDecl.Renamed ρ r marks d d') (others : FunDecl.RenamedAll ρ r marks rest rest') :
      FunDecl.RenamedAll ρ r marks (d :: rest) (d' :: rest')

end

/-- Functions keep their names. -/
theorem FunDecl.Renamed.name_eq {ρ : Renaming} {r : Resolution} {marks : Marks} {d d' : FunDecl} :
    d.Renamed ρ r marks d' → d.name = d'.name
  | .mk .. => rfl

/-- They take as many arguments. -/
theorem FunDecl.Renamed.length_eq {ρ : Renaming} {r : Resolution} {marks : Marks}
    {d d' : FunDecl} : d.Renamed ρ r marks d' → d.params.length = d'.params.length
  | .mk _ _ parameters _ => parameters.length_eq

/-! ## 4. Where nothing is marked

The relation holds between every program and itself, as long as no scope is marked. -/

section Unmarked

variable (ρ : Renaming) (r : Resolution)

/-- No scope is marked. -/
abbrev Marks.none (depth : Nat) : Marks := List.replicate depth false

/-- The innermost scope is not marked. -/
theorem Marks.headD_none (depth : Nat) : (none depth).headD false = false := by
  cases depth <;> rfl

/-- No node leads to a marked scope. -/
theorem Resolution.mark_none (depth : Nat) (id : Id) : r.mark (.none depth) id = false := by
  unfold mark
  split
  · rw [List.getD_eq_getElem?_getD, List.getElem?_replicate]
    split <;> rfl
  · rfl

theorem Name.renamed_self (name : Name) : name.Renamed ρ false name := ⟨.unmarked _, rfl⟩

/-- A declaration keeps its name. -/
theorem Name.renamed_declared (depth : Nat) (name : Name) :
    name.Renamed ρ ((Marks.none depth).headD false) name := by
  rw [Marks.headD_none]
  exact name.renamed_self ρ

theorem Variable.renamed_self (depth : Nat) (v : Variable) : v.Renamed ρ r (.none depth) v :=
  ⟨rfl, by rw [Resolution.mark_none]; exact v.name.renamed_self ρ⟩

/-- The scopes of a class are not marked either. -/
theorem Marks.ofClass_none (depth : Nat) (derived : Bool) :
    ∃ depth', (none depth).ofClass derived = none depth' := by
  cases derived with
  | false => exact ⟨depth, rfl⟩
  | true => exact ⟨depth + 1, rfl⟩

/-- What is related to itself is so where it may be absent. -/
theorem Option.rel_self {α : Type} {R : α → α → Prop} (self : ∀ x, R x x) (x : Option α) :
    Option.Rel R x x := by
  cases x with
  | none => exact .none
  | some x => exact .some (self x)

mutual

/-- An expression becomes itself if nothing is marked. -/
theorem Expr.renamed_self (depth : Nat) : ∀ e : Expr, e.Renamed ρ r (.none depth) e
  | .literal value => .literal value
  | .grouping inner => .grouping (inner.renamed_self depth)
  | .unary op line operand => .unary op line (operand.renamed_self depth)
  | .binary op line left right => .binary op line (left.renamed_self depth)
    (right.renamed_self depth)
  | .logical op line left right => .logical op line (left.renamed_self depth)
    (right.renamed_self depth)
  | .variable v => .variable (v.renamed_self ρ r depth)
  | .assign v e => .assign (v.renamed_self ρ r depth) (e.renamed_self depth)
  | .call e es line => .call (e.renamed_self depth) (Expr.renamedAll_self depth es) line
  | .get e property => .get (e.renamed_self depth) property
  | .set o property e => .set (o.renamed_self depth) property (e.renamed_self depth)
  | .this id line => .this id line
  | .super id line method => .super id line method
  | .list line es => .list line (Expr.renamedAll_self depth es)

theorem Expr.renamedAll_self (depth : Nat) :
    ∀ es : List Expr, Expr.RenamedAll ρ r (.none depth) es es
  | [] => .nil
  | e :: es => .cons (e.renamed_self depth) (Expr.renamedAll_self depth es)

end

mutual

/-- A statement becomes itself if nothing is marked. -/
theorem Stmt.renamed_self (depth : Nat) : ∀ s : Stmt, s.Renamed ρ r (.none depth) s
  | .print line value => .print line (value.renamed_self ρ r depth)
  | .expression value => .expression (value.renamed_self ρ r depth)
  | .varDecl name initializer => .varDecl (name.renamed_declared ρ depth)
    (Option.rel_self (Expr.renamed_self ρ r depth) initializer)
  | .block body => .block false (Stmt.renamedAll_self (depth + 1) body)
  | .ifElse condition branch none => .ifThen (condition.renamed_self ρ r depth)
    (branch.renamed_self depth)
  | .ifElse condition branch (some otherwise) => .ifElse (condition.renamed_self ρ r depth)
    (branch.renamed_self depth) (otherwise.renamed_self depth)
  | .whileLoop condition body => .whileLoop (condition.renamed_self ρ r depth)
    (body.renamed_self depth)
  | .forEach line name iterable body => .forEach false line (name.renamed_self ρ)
    (iterable.renamed_self ρ r depth) (body.renamed_self (depth + 1))
  | .funDecl d => .funDecl (d.name.renamed_declared ρ depth).text (d.renamed_self depth)
  | .ret line value => .ret line (Option.rel_self (Expr.renamed_self ρ r depth) value)
  | .classDecl name superclass methods => by
    obtain ⟨depth', same⟩ := Marks.ofClass_none depth superclass.isSome
    refine .classDecl name (name.renamed_declared ρ depth).text
      (Option.rel_self (Variable.renamed_self ρ r depth) superclass) ?_
    rw [same]
    exact FunDecl.renamedAll_self (depth' + 1) methods

theorem Stmt.renamedAll_self (depth : Nat) :
    ∀ body : List Stmt, Stmt.RenamedAll ρ r (.none depth) body body
  | [] => .nil
  | s :: rest => .cons (s.renamed_self depth) (Stmt.renamedAll_self depth rest)

theorem FunDecl.renamed_self (depth : Nat) : ∀ d : FunDecl, d.Renamed ρ r (.none depth) d
  | ⟨name, _, body⟩ => .mk false name (List.forall₂_same.2 fun p _ => p.renamed_self ρ)
    (Stmt.renamedAll_self (depth + 1) body)

theorem FunDecl.renamedAll_self (depth : Nat) :
    ∀ ds : List FunDecl, FunDecl.RenamedAll ρ r (.none depth) ds ds
  | [] => .nil
  | d :: rest => .cons (d.renamed_self depth) (FunDecl.renamedAll_self depth rest)

end

end Unmarked

/-! ## 5. Where the new name is the old one

Every program is related to itself only, which makes the relation of use for a single run as
well. -/

section Same

variable {ρ : Renaming} {r : Resolution}

/-- A name becomes itself if both names are the same. -/
theorem Name.Renamed.eq (same : ρ.old = ρ.new) {marked : Bool} {name name' : Name}
    (h : name.Renamed ρ marked name') : name = name' := by
  cases name
  cases name'
  cases h.text.eq same
  cases h.line
  rfl

theorem Variable.Renamed.eq (same : ρ.old = ρ.new) {marks : Marks} {v v' : Variable}
    (h : v.Renamed ρ r marks v') : v = v' := by
  cases v
  cases v'
  cases h.id
  cases h.name.eq same
  rfl

mutual

/-- So an expression becomes itself. -/
theorem Expr.Renamed.eq (same : ρ.old = ρ.new) {marks : Marks} {e e' : Expr} :
    e.Renamed ρ r marks e' → e = e'
  | .literal _ => rfl
  | .grouping inner => congrArg Expr.grouping (inner.eq same)
  | .unary _ _ operand => congrArg (Expr.unary _ _) (operand.eq same)
  | .binary _ _ left right => congrArg₂ (Expr.binary _ _) (left.eq same) (right.eq same)
  | .logical _ _ left right => congrArg₂ (Expr.logical _ _) (left.eq same) (right.eq same)
  | .variable occurrence => congrArg Expr.variable (occurrence.eq same)
  | .assign target value => congrArg₂ Expr.assign (target.eq same) (value.eq same)
  | .call callee arguments _ => congrArg₂ (Expr.call · · _) (callee.eq same) (arguments.eq same)
  | .get object _ => congrArg (Expr.get · _) (object.eq same)
  | .set object _ value => congrArg₂ (Expr.set · _ ·) (object.eq same) (value.eq same)
  | .this _ _ => rfl
  | .super _ _ _ => rfl
  | .list _ elements => congrArg (Expr.list _) (elements.eq same)

theorem Expr.RenamedAll.eq (same : ρ.old = ρ.new) {marks : Marks} {es es' : List Expr} :
    Expr.RenamedAll ρ r marks es es' → es = es'
  | .nil => rfl
  | .cons first rest => congrArg₂ List.cons (first.eq same) (rest.eq same)

end

mutual

/-- So does a statement. -/
theorem Stmt.Renamed.eq (same : ρ.old = ρ.new) {marks : Marks} {s s' : Stmt} :
    s.Renamed ρ r marks s' → s = s'
  | .print _ value => congrArg (Stmt.print _) (value.eq same)
  | .expression value => congrArg Stmt.expression (value.eq same)
  | .varDecl names initializer => by
    rw [names.eq same, Option.eq_of_rel (fun _ _ like => like.eq same) initializer]
  | .block _ statements => congrArg Stmt.block (statements.eq same)
  | .ifThen condition branch =>
    congrArg₂ (Stmt.ifElse · · none) (condition.eq same) (branch.eq same)
  | .ifElse condition branch otherwise => by
    rw [condition.eq same, branch.eq same, otherwise.eq same]
  | .whileLoop condition body => congrArg₂ Stmt.whileLoop (condition.eq same) (body.eq same)
  | .forEach _ _ names iterable body => by rw [names.eq same, iterable.eq same, body.eq same]
  | .funDecl _ declared => congrArg Stmt.funDecl (declared.eq same)
  | .ret _ given => congrArg (Stmt.ret _) (Option.eq_of_rel (fun _ _ like => like.eq same) given)
  | .classDecl _ _ superclass declared => by
    rw [Option.eq_of_rel (fun _ _ like => like.eq same) superclass, declared.eq same]

theorem Stmt.RenamedAll.eq (same : ρ.old = ρ.new) {marks : Marks} {body body' : List Stmt} :
    Stmt.RenamedAll ρ r marks body body' → body = body'
  | .nil => rfl
  | .cons first rest => congrArg₂ List.cons (first.eq same) (rest.eq same)

theorem FunDecl.Renamed.eq (same : ρ.old = ρ.new) {marks : Marks} {d d' : FunDecl} :
    d.Renamed ρ r marks d' → d = d'
  | .mk _ _ parameters statements => by
    have names : List.Forall₂ (· = ·) _ _ := parameters.imp fun _ _ name => name.eq same
    rw [List.forall₂_eq_eq_eq] at names
    rw [names, statements.eq same]

theorem FunDecl.RenamedAll.eq (same : ρ.old = ρ.new) {marks : Marks} {ds ds' : List FunDecl} :
    FunDecl.RenamedAll ρ r marks ds ds' → ds = ds'
  | .nil => rfl
  | .cons first others => congrArg₂ List.cons (first.eq same) (others.eq same)

end

end Same

end Lox
