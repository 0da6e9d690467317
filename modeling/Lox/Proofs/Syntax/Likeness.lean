/-
# Trees that are alike

A `Likeness` says which ids and which lines may stand for which.  Trees are alike if they differ in
nothing but their ids and lines, and these only as the likeness allows.
-/
import Lox.Proofs.Syntax.Derivation
import Mathlib.Data.List.Forall2

namespace Lox

/-- What may stand for an id, and what for a line. -/
structure Likeness where
  ids : Id → Id → Prop
  lines : Nat → Nat → Prop

/-- Any id may stand for any other one, and any line. -/
def Likeness.shape : Likeness := ⟨fun _ _ => True, fun _ _ => True⟩

/-- A likeness allows all that another one allows. -/
structure Likeness.Le (m m' : Likeness) : Prop where
  ids : ∀ i j, m.ids i j → m'.ids i j
  lines : ∀ l l', m.lines l l' → m'.lines l l'

/-- Names of one text. -/
structure Name.Alike (m : Likeness) (name name' : Name) : Prop where
  text : name.text = name'.text
  line : m.lines name.line name'.line

/-- One text on lines that may stand for each other. -/
theorem Name.Alike.of_lines {m : Likeness} {line line' : Nat} (lines : m.lines line line')
    (text : String) : (⟨text, line⟩ : Name).Alike m ⟨text, line'⟩ :=
  ⟨rfl, lines⟩

/-- Variables of one name. -/
structure Variable.Alike (m : Likeness) (v v' : Variable) : Prop where
  id : m.ids v.id v'.id
  name : v.name.Alike m v'.name

/-! ## 1. Expressions

Ids and lines are compared by the likeness, and everything else has to be the same. -/

mutual

/-- Expressions that differ in ids and lines only. -/
inductive Expr.Alike (m : Likeness) : Expr → Expr → Prop
  | literal (value : Literal) : Alike m (.literal value) (.literal value)
  | grouping {e e' : Expr} (inner : e.Alike m e') : Alike m (.grouping e) (.grouping e')
  | unary {op : UnaryOp} {line line' : Nat} {e e' : Expr} (lines : m.lines line line')
      (operand : e.Alike m e') : Alike m (.unary op line e) (.unary op line' e')
  | binary {op : BinaryOp} {line line' : Nat} {l l' r r' : Expr} (lines : m.lines line line')
      (left : l.Alike m l') (right : r.Alike m r') :
      Alike m (.binary op line l r) (.binary op line' l' r')
  | logical {op : LogicalOp} {line line' : Nat} {l l' r r' : Expr} (lines : m.lines line line')
      (left : l.Alike m l') (right : r.Alike m r') :
      Alike m (.logical op line l r) (.logical op line' l' r')
  | variable {v v' : Variable} (occurrence : v.Alike m v') : Alike m (.variable v) (.variable v')
  | assign {v v' : Variable} {e e' : Expr} (target : v.Alike m v') (value : e.Alike m e') :
      Alike m (.assign v e) (.assign v' e')
  | call {e e' : Expr} {es es' : List Expr} {line line' : Nat} (callee : e.Alike m e')
      (arguments : AlikeAll m es es') (lines : m.lines line line') :
      Alike m (.call e es line) (.call e' es' line')
  | get {e e' : Expr} {name name' : Name} (object : e.Alike m e')
      (property : name.Alike m name') : Alike m (.get e name) (.get e' name')
  | set {o o' e e' : Expr} {name name' : Name} (object : o.Alike m o')
      (property : name.Alike m name') (value : e.Alike m e') :
      Alike m (.set o name e) (.set o' name' e')
  | this {id id' : Id} {line line' : Nat} (ids : m.ids id id') (lines : m.lines line line') :
      Alike m (.this id line) (.this id' line')
  | super {id id' : Id} {line line' : Nat} {name name' : Name} (ids : m.ids id id')
      (lines : m.lines line line') (method : name.Alike m name') :
      Alike m (.super id line name) (.super id' line' name')
  | list {line line' : Nat} {es es' : List Expr} (lines : m.lines line line')
      (elements : AlikeAll m es es') : Alike m (.list line es) (.list line' es')

/-- Expressions that are alike one by one. -/
inductive Expr.AlikeAll (m : Likeness) : List Expr → List Expr → Prop
  | nil : AlikeAll m [] []
  | cons {e e' : Expr} {es es' : List Expr} (first : e.Alike m e') (rest : AlikeAll m es es') :
      AlikeAll m (e :: es) (e' :: es')

end

/-- Lists of arguments that are alike are equally long. -/
theorem Expr.AlikeAll.length_eq {m : Likeness} {es es' : List Expr} :
    AlikeAll m es es' → es.length = es'.length
  | .nil => rfl
  | .cons _ rest => congrArg Nat.succ rest.length_eq

/-- Operands that are alike make expressions that are. -/
theorem Expr.Alike.joined {m : Likeness} {line line' : Nat} {l l' r r' : Expr}
    (lines : m.lines line line') (left : l.Alike m l') (right : r.Alike m r') :
    (op : Operator) → (Grammar.joined line l r op).Alike m (Grammar.joined line' l' r' op)
  | .binary _ => .binary lines left right
  | .logical _ => .logical lines left right

/-! ## 2. Statements

As for expressions.  A function has no id of its own. -/

mutual

/-- Statements that differ in ids and lines only. -/
inductive Stmt.Alike (m : Likeness) : Stmt → Stmt → Prop
  | print {line line' : Nat} {e e' : Expr} (lines : m.lines line line') (value : e.Alike m e') :
      Stmt.Alike m (.print line e) (.print line' e')
  | expression {e e' : Expr} (value : e.Alike m e') : Stmt.Alike m (.expression e) (.expression e')
  | varDecl {name name' : Name} {value value' : Option Expr} (names : name.Alike m name')
      (initializer : Option.Rel (Expr.Alike m) value value') :
      Stmt.Alike m (.varDecl name value) (.varDecl name' value')
  | block {body body' : List Stmt} (statements : Stmt.AlikeAll m body body') :
      Stmt.Alike m (.block body) (.block body')
  | ifThen {e e' : Expr} {s s' : Stmt} (condition : e.Alike m e') (branch : Stmt.Alike m s s') :
      Stmt.Alike m (.ifElse e s none) (.ifElse e' s' none)
  | ifElse {e e' : Expr} {s s' t t' : Stmt} (condition : e.Alike m e') (branch : Stmt.Alike m s s')
      (otherwise : Stmt.Alike m t t') :
      Stmt.Alike m (.ifElse e s (some t)) (.ifElse e' s' (some t'))
  | whileLoop {e e' : Expr} {s s' : Stmt} (condition : e.Alike m e') (body : Stmt.Alike m s s') :
      Stmt.Alike m (.whileLoop e s) (.whileLoop e' s')
  | forEach {line line' : Nat} {name name' : Name} {e e' : Expr} {s s' : Stmt}
      (lines : m.lines line line') (names : name.Alike m name') (iterable : e.Alike m e')
      (body : Stmt.Alike m s s') :
      Stmt.Alike m (.forEach line name e s) (.forEach line' name' e' s')
  | funDecl {declaration declaration' : FunDecl}
      (declared : FunDecl.Alike m declaration declaration') :
      Stmt.Alike m (.funDecl declaration) (.funDecl declaration')
  | ret {line line' : Nat} {value value' : Option Expr} (lines : m.lines line line')
      (given : Option.Rel (Expr.Alike m) value value') :
      Stmt.Alike m (.ret line value) (.ret line' value')
  | classDecl {name name' : Name} {v v' : Option Variable} {methods methods' : List FunDecl}
      (names : name.Alike m name') (superclass : Option.Rel (Variable.Alike m) v v')
      (declared : FunDecl.AlikeAll m methods methods') :
      Stmt.Alike m (.classDecl name v methods) (.classDecl name' v' methods')

/-- Statements that are alike one by one. -/
inductive Stmt.AlikeAll (m : Likeness) : List Stmt → List Stmt → Prop
  | nil : Stmt.AlikeAll m [] []
  | cons {s s' : Stmt} {body body' : List Stmt} (first : Stmt.Alike m s s')
      (rest : Stmt.AlikeAll m body body') : Stmt.AlikeAll m (s :: body) (s' :: body')

/-- Declarations that differ in ids and lines only. -/
inductive FunDecl.Alike (m : Likeness) : FunDecl → FunDecl → Prop
  | mk {name name' : Name} {params params' : List Name} {body body' : List Stmt}
      (names : name.Alike m name') (parameters : List.Forall₂ (Name.Alike m) params params')
      (statements : Stmt.AlikeAll m body body') :
      FunDecl.Alike m ⟨name, params, body⟩ ⟨name', params', body'⟩

/-- Declarations that are alike one by one. -/
inductive FunDecl.AlikeAll (m : Likeness) : List FunDecl → List FunDecl → Prop
  | nil : FunDecl.AlikeAll m [] []
  | cons {declaration declaration' : FunDecl} {rest rest' : List FunDecl}
      (first : FunDecl.Alike m declaration declaration') (others : FunDecl.AlikeAll m rest rest') :
      FunDecl.AlikeAll m (declaration :: rest) (declaration' :: rest')

end

/-- Functions that are alike have names that are alike. -/
theorem FunDecl.Alike.name {m : Likeness} {d d' : FunDecl} : d.Alike m d' → d.name.Alike m d'.name
  | .mk names _ _ => names

theorem FunDecl.Alike.params {m : Likeness} {d d' : FunDecl} :
    d.Alike m d' → List.Forall₂ (Name.Alike m) d.params d'.params
  | .mk _ parameters _ => parameters

theorem FunDecl.Alike.body {m : Likeness} {d d' : FunDecl} :
    d.Alike m d' → Stmt.AlikeAll m d.body d'.body
  | .mk _ _ statements => statements

/-- Whether a method is an initializer depends on its name. -/
theorem FunDecl.Alike.isInitializer_eq {m : Likeness} {d d' : FunDecl} (h : d.Alike m d') :
    d.isInitializer = d'.isInitializer := by
  unfold FunDecl.isInitializer
  rw [h.name.text]

/-- Loops of parts that are alike stand for statements that are. -/
theorem Stmt.Alike.loop {m : Likeness} {first first' : Option Stmt} {e e' : Expr}
    {step step' : Option Expr} {s s' : Stmt} (initializer : Option.Rel (Stmt.Alike m) first first')
    (condition : e.Alike m e') (increment : Option.Rel (Expr.Alike m) step step')
    (body : s.Alike m s') :
    (Grammar.loop first e step s).Alike m (Grammar.loop first' e' step' s') := by
  cases increment with
  | none =>
    cases initializer with
    | none => exact .whileLoop condition body
    | some like => exact .block (.cons like (.cons (.whileLoop condition body) .nil))
  | some step =>
    have turn := Stmt.Alike.block (.cons body (.cons (.expression step) .nil))
    cases initializer with
    | none => exact .whileLoop condition turn
    | some like => exact .block (.cons like (.cons (.whileLoop condition turn) .nil))

/-! ## 3. Likenesses that allow more

The relations grow with the likeness. -/

section Mono

variable {m m' : Likeness}

/-- Names that are alike stay so under a wider likeness. -/
theorem Name.Alike.mono (le : m.Le m') {name name' : Name} (h : name.Alike m name') :
    name.Alike m' name' :=
  ⟨h.text, le.lines _ _ h.line⟩

theorem Variable.Alike.mono (le : m.Le m') {v v' : Variable} (h : v.Alike m v') :
    v.Alike m' v' :=
  ⟨le.ids _ _ h.id, h.name.mono le⟩

mutual

/-- So do expressions, by recursion on the two of them. -/
theorem Expr.Alike.mono (le : m.Le m') {e e' : Expr} : e.Alike m e' → e.Alike m' e'
  | .literal value => .literal value
  | .grouping inner => .grouping (inner.mono le)
  | .unary lines operand => .unary (le.lines _ _ lines) (operand.mono le)
  | .binary lines left right => .binary (le.lines _ _ lines) (left.mono le) (right.mono le)
  | .logical lines left right => .logical (le.lines _ _ lines) (left.mono le) (right.mono le)
  | .variable occurrence => .variable (occurrence.mono le)
  | .assign target value => .assign (target.mono le) (value.mono le)
  | .call callee arguments lines => .call (callee.mono le) (arguments.mono le) (le.lines _ _ lines)
  | .get object property => .get (object.mono le) (property.mono le)
  | .set object property value => .set (object.mono le) (property.mono le) (value.mono le)
  | .this ids lines => .this (le.ids _ _ ids) (le.lines _ _ lines)
  | .super ids lines method => .super (le.ids _ _ ids) (le.lines _ _ lines) (method.mono le)
  | .list lines elements => .list (le.lines _ _ lines) (elements.mono le)

theorem Expr.AlikeAll.mono (le : m.Le m') {es es' : List Expr} :
    Expr.AlikeAll m es es' → Expr.AlikeAll m' es es'
  | .nil => .nil
  | .cons first rest => .cons (first.mono le) (rest.mono le)

end

theorem Expr.Alike.mono_optional (le : m.Le m') {e e' : Option Expr} :
    Option.Rel (Expr.Alike m) e e' → Option.Rel (Expr.Alike m') e e'
  | .none => .none
  | .some like => .some (like.mono le)

theorem Variable.Alike.mono_optional (le : m.Le m') {v v' : Option Variable} :
    Option.Rel (Variable.Alike m) v v' → Option.Rel (Variable.Alike m') v v'
  | .none => .none
  | .some like => .some (like.mono le)

mutual

/-- So do statements. -/
theorem Stmt.Alike.mono (le : m.Le m') {s s' : Stmt} : s.Alike m s' → s.Alike m' s'
  | .print lines value => .print (le.lines _ _ lines) (value.mono le)
  | .expression value => .expression (value.mono le)
  | .varDecl names initializer => .varDecl (names.mono le) (Expr.Alike.mono_optional le initializer)
  | .block statements => .block (statements.mono le)
  | .ifThen condition branch => .ifThen (condition.mono le) (branch.mono le)
  | .ifElse condition branch otherwise =>
    .ifElse (condition.mono le) (branch.mono le) (otherwise.mono le)
  | .whileLoop condition body => .whileLoop (condition.mono le) (body.mono le)
  | .forEach lines names iterable body =>
    .forEach (le.lines _ _ lines) (names.mono le) (iterable.mono le) (body.mono le)
  | .funDecl declared => .funDecl (declared.mono le)
  | .ret lines given => .ret (le.lines _ _ lines) (Expr.Alike.mono_optional le given)
  | .classDecl names superclass declared =>
    .classDecl (names.mono le) (Variable.Alike.mono_optional le superclass) (declared.mono le)

theorem Stmt.AlikeAll.mono (le : m.Le m') {body body' : List Stmt} :
    Stmt.AlikeAll m body body' → Stmt.AlikeAll m' body body'
  | .nil => .nil
  | .cons first rest => .cons (first.mono le) (rest.mono le)

theorem FunDecl.Alike.mono (le : m.Le m') {declaration declaration' : FunDecl} :
    declaration.Alike m declaration' → declaration.Alike m' declaration'
  | .mk names parameters statements =>
    .mk (names.mono le) (parameters.imp fun _ _ name => (name.mono le)) (statements.mono le)

theorem FunDecl.AlikeAll.mono (le : m.Le m') {declarations declarations' : List FunDecl} :
    FunDecl.AlikeAll m declarations declarations' → FunDecl.AlikeAll m' declarations declarations'
  | .nil => .nil
  | .cons first others => .cons (first.mono le) (others.mono le)

end

end Mono

/-! ## 4. The likeness that allows nothing

It is equality. -/

/-- An id and a line stand for themselves only. -/
def Likeness.same : Likeness := ⟨Eq, Eq⟩

/-- A name whose line may not differ is the same name. -/
theorem Name.Alike.eq {name name' : Name} (h : name.Alike .same name') : name = name' := by
  cases name
  cases name'
  cases h.text
  cases h.line
  rfl

theorem Variable.Alike.eq {v v' : Variable} (h : v.Alike .same v') : v = v' := by
  cases v
  cases v'
  cases h.id
  cases h.name.eq
  rfl

theorem Name.eq_of_forall₂ {names names' : List Name}
    (h : List.Forall₂ (Name.Alike .same) names names') : names = names' := by
  induction h with
  | nil => rfl
  | cons first _ ih => rw [first.eq, ih]

mutual

/-- So it is for expressions. -/
theorem Expr.Alike.eq {e e' : Expr} : e.Alike .same e' → e = e'
  | .literal _ => rfl
  | .grouping inner => congrArg Expr.grouping inner.eq
  | .unary (rfl : _ = _) operand => congrArg (Expr.unary _ _) operand.eq
  | .binary (rfl : _ = _) left right => congrArg₂ (Expr.binary _ _) left.eq right.eq
  | .logical (rfl : _ = _) left right => congrArg₂ (Expr.logical _ _) left.eq right.eq
  | .variable occurrence => congrArg Expr.variable occurrence.eq
  | .assign target value => congrArg₂ Expr.assign target.eq value.eq
  | .call callee arguments (rfl : _ = _) =>
    congrArg₂ (Expr.call · · _) callee.eq arguments.eq
  | .get object property => congrArg₂ Expr.get object.eq property.eq
  | .set object property value => by rw [object.eq, property.eq, value.eq]
  | .this (rfl : _ = _) (rfl : _ = _) => rfl
  | .super (rfl : _ = _) (rfl : _ = _) method => congrArg (Expr.super _ _) method.eq
  | .list (rfl : _ = _) elements => congrArg (Expr.list _) elements.eq

theorem Expr.AlikeAll.eq {es es' : List Expr} : Expr.AlikeAll .same es es' → es = es'
  | .nil => rfl
  | .cons first rest => congrArg₂ List.cons first.eq rest.eq

end

/-- And for what may be absent. -/
theorem Option.eq_of_rel {α : Type} {R : α → α → Prop} (same : ∀ a b, R a b → a = b)
    {x y : Option α} : Option.Rel R x y → x = y
  | .none => rfl
  | .some like => congrArg some (same _ _ like)

mutual

/-- And for statements. -/
theorem Stmt.Alike.eq {s s' : Stmt} : s.Alike .same s' → s = s'
  | .print (rfl : _ = _) value => congrArg (Stmt.print _) value.eq
  | .expression value => congrArg Stmt.expression value.eq
  | .varDecl names initializer =>
    congrArg₂ Stmt.varDecl names.eq (Option.eq_of_rel (fun _ _ => Expr.Alike.eq) initializer)
  | .block statements => congrArg Stmt.block statements.eq
  | .ifThen condition branch => congrArg₂ (Stmt.ifElse · · none) condition.eq branch.eq
  | .ifElse condition branch otherwise => by rw [condition.eq, branch.eq, otherwise.eq]
  | .whileLoop condition body => congrArg₂ Stmt.whileLoop condition.eq body.eq
  | .forEach (rfl : _ = _) names iterable body => by rw [names.eq, iterable.eq, body.eq]
  | .funDecl declared => congrArg Stmt.funDecl declared.eq
  | .ret (rfl : _ = _) given =>
    congrArg (Stmt.ret _) (Option.eq_of_rel (fun _ _ => Expr.Alike.eq) given)
  | .classDecl names superclass declared => by
    rw [names.eq, Option.eq_of_rel (fun _ _ => Variable.Alike.eq) superclass, declared.eq]

theorem Stmt.AlikeAll.eq {body body' : List Stmt} : Stmt.AlikeAll .same body body' → body = body'
  | .nil => rfl
  | .cons first rest => congrArg₂ List.cons first.eq rest.eq

theorem FunDecl.Alike.eq {d d' : FunDecl} : d.Alike .same d' → d = d'
  | .mk names parameters statements => by
    rw [names.eq, Name.eq_of_forall₂ parameters, statements.eq]

theorem FunDecl.AlikeAll.eq {ds ds' : List FunDecl} : FunDecl.AlikeAll .same ds ds' → ds = ds'
  | .nil => rfl
  | .cons first others => congrArg₂ List.cons first.eq others.eq

end

end Lox
