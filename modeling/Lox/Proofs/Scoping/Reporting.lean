/-
# The order of static errors

The walk over a program reports at some of its names, in an order that is settled by the tree
(`Stmt.places`).  It is the order of the text but for two constructs: the object of an assignment to
a property comes behind the value, and the increment of a `for` loop behind the body (`Exchanged`).

Main statement: `static_errors_in_order`.
-/
import Mathlib
import Lox.Proofs.Scoping.Visit
import Lox.Proofs.Syntax.Reporting
import Lox.Proofs.Syntax.Soundness

namespace Lox

/-! ## 1. Where errors can be reported

A place is a name with its line.  Which errors are reported depends on what is in scope, but the
places at which one can be are in the tree. -/

mutual

/-- The names and keywords of an expression at which something can be wrong, in the order of the
walk. -/
def Expr.places : Expr → List Name
  | .literal _ => []
  | .grouping inner => inner.places
  | .unary _ _ operand => operand.places
  | .binary _ _ left right => left.places ++ right.places
  | .logical _ _ left right => left.places ++ right.places
  | .variable v => [v.name]
  | .assign _ value => value.places
  | .call callee arguments _ => callee.places ++ Expr.allPlaces arguments
  | .get object _ => object.places
  | .set object _ value => value.places ++ object.places
  | .this _ line => [⟨"this", line⟩]
  | .super _ line _ => [⟨"super", line⟩]
  | .list _ elements => Expr.allPlaces elements

def Expr.allPlaces : List Expr → List Name
  | [] => []
  | e :: es => e.places ++ Expr.allPlaces es

end

/-- The places of an expression, where there may be none. -/
def Expr.optionalPlaces : Option Expr → List Name
  | none => []
  | some e => e.places

/-- The places of a superclass: it is looked at twice. -/
def Variable.superclassPlaces : Option Variable → List Name
  | none => []
  | some parent => [parent.name, parent.name]

mutual

/-- The names and keywords of a statement at which something can be wrong, in the order of the
walk.  The variable of a `foreach` loop has a scope of its own, in which no other name is declared
before. -/
def Stmt.places : Stmt → List Name
  | .print _ value => value.places
  | .expression value => value.places
  | .varDecl name initializer => name :: Expr.optionalPlaces initializer
  | .block body => Stmt.allPlaces body
  | .ifElse condition thenBranch elseBranch =>
    condition.places ++ (thenBranch.places ++ Stmt.optionalPlaces elseBranch)
  | .whileLoop condition body => condition.places ++ body.places
  | .forEach _ _ iterable body => iterable.places ++ body.places
  | .funDecl declaration => declaration.name :: declaration.places
  | .ret line value => ⟨"return", line⟩ :: Expr.optionalPlaces value
  | .classDecl name superclass methods =>
    name :: (Variable.superclassPlaces superclass ++ FunDecl.allPlaces methods)

def Stmt.optionalPlaces : Option Stmt → List Name
  | none => []
  | some s => s.places

def Stmt.allPlaces : List Stmt → List Name
  | [] => []
  | s :: rest => s.places ++ Stmt.allPlaces rest

/-- The places of a function, its name apart. -/
def FunDecl.places : FunDecl → List Name
  | ⟨_, params, body⟩ => params ++ Stmt.allPlaces body

def FunDecl.allPlaces : List FunDecl → List Name
  | [] => []
  | method :: rest => method.places ++ FunDecl.allPlaces rest

end

/-! ## 2. The walk

Each step of the walk reports at a sublist of its places.  There is one lemma for each step, and the
lemmas for phrases follow their recursion. -/

namespace Resolve

/-- A step of the walk reports errors at some of these places, in this order. -/
def Reports (step : Resolve Unit) (places : List Name) : Prop :=
  ∀ state : ResolveState, ∃ new, (step.run state).2.errors = state.errors ++ new ∧
    (new.map ResolutionError.place).Sublist places

namespace Reports

variable {x y : Resolve Unit} {places places' : List Name}

/-- A step that reports nothing. -/
theorem silent (h : ∀ state, (x.run state).2.errors = state.errors) : Reports x [] := fun state =>
  ⟨[], (h state).trans (List.append_nil _).symm, .refl _⟩

theorem nothing : Reports (pure ()) [] := silent fun _ => rfl

/-- The errors of two steps are put one behind the other, and so are their places. -/
theorem andThen (hx : Reports x places) (hy : Reports y places') :
    Reports (do x; y) (places ++ places') := by
  intro state
  obtain ⟨new, errors, sublist⟩ := hx state
  obtain ⟨new', errors', sublist'⟩ := hy (x.run state).2
  refine ⟨new ++ new', ?_, ?_⟩
  · rw [← List.append_assoc, ← errors]
    exact errors'
  · rw [List.map_append]
    exact sublist.append sublist'

/-- A step, and then one that reports nothing. -/
theorem andQuietly (hx : Reports x places) (hy : Reports y []) : Reports (do x; y) places := by
  have both := hx.andThen hy
  rwa [List.append_nil] at both

/-- More places may be given than are reported at. -/
theorem mono (hx : Reports x places) (h : places.Sublist places') : Reports x places' := by
  intro state
  obtain ⟨new, errors, sublist⟩ := hx state
  exact ⟨new, errors, sublist.trans h⟩

/-- Reporting an error is done at one place. -/
theorem report (place : Name) (cause : ResolutionCause) : Reports (report place cause) [place] :=
  fun _ => ⟨[⟨place, cause⟩], rfl, .refl _⟩

theorem bind (name : String) (ready : Bool) : Reports (Resolve.bind name ready) [] :=
  silent fun state => by rw [run_bind]

theorem pushScope : Reports pushScope [] := silent fun _ => rfl

theorem popScope : Reports popScope [] := silent fun _ => rfl

theorem file (id : Id) (name : String) : Reports (Resolve.file id name) [] :=
  silent fun state => by rw [run_file]

/-- A name that is declared twice is reported at the second declaration. -/
theorem declare (name : Name) : Reports (declare name) [name] := by
  intro state
  rw [run_declare]
  refine ⟨_, rfl, ?_⟩
  split
  · exact .refl _
  · exact List.nil_sublist _

/-- A variable that is read in its own initializer is reported where it is read. -/
theorem readVariable (v : Variable) : Reports (readVariable v) [v.name] := by
  intro state
  rw [run_readVariable]
  refine ⟨_, rfl, ?_⟩
  split
  · exact .refl _
  · exact List.nil_sublist _

/-- In a scope that has just been opened nothing is declared. -/
theorem declareFirst (name : Name) : Reports (do Resolve.pushScope; Resolve.declare name) [] :=
  silent fun state => by
    change ((Resolve.declare name).run { state with scopes := .empty :: state.scopes }).2.errors = _
    rw [run_declare]
    exact List.append_nil _

/-- An error that is reported under some condition, before another step. -/
theorem check {p : Prop} [Decidable p] (place : Name) (cause : ResolutionCause)
    (hx : Reports x places) :
    Reports (if p then (do Resolve.report place cause; x) else x) (place :: places) := by
  split
  · exact (report place cause).andThen hx
  · exact hx.mono (List.sublist_cons_self place places)

theorem params : (names : List Name) → Reports (Resolve.params names) names
  | [] => nothing
  | name :: names => (declare name).andThen ((bind name.text true).andThen (params names))

/-- A superclass that is the class itself is reported at its name, before it is read like a
variable. -/
theorem superclass (context : ResolveContext) (name : Name) : (parent : Option Variable) →
    Reports (Resolve.superclass context name parent) (Variable.superclassPlaces parent)
  | none => nothing
  | some parent =>
    check parent.name .selfInheritance
      ((readVariable parent).andQuietly (pushScope.andQuietly (bind "super" true)))

mutual

/-- The walk goes through an expression in the order of `Expr.places`. -/
theorem expr (context : ResolveContext) : (e : Expr) → Reports (Resolve.expr context e) e.places
  | .literal _ => nothing
  | .grouping inner => expr context inner
  | .unary _ _ operand => expr context operand
  | .binary _ _ left right => (expr context left).andThen (expr context right)
  | .logical _ _ left right => (expr context left).andThen (expr context right)
  | .variable v => readVariable v
  | .assign target value => (expr context value).andQuietly (file target.id target.name.text)
  | .call callee arguments _ => (expr context callee).andThen (exprs context arguments)
  | .get object _ => expr context object
  | .set object _ value => (expr context value).andThen (expr context object)
  | .this id line => by
    rw [Resolve.expr]
    split
    · exact report _ _
    · exact (file id "this").mono (List.nil_sublist _)
    · exact (file id "this").mono (List.nil_sublist _)
  | .super id line _ => by
    rw [Resolve.expr]
    split
    · exact report _ _
    · exact report _ _
    · exact (file id "super").mono (List.nil_sublist _)
  | .list _ elements => exprs context elements

theorem exprs (context : ResolveContext) :
    (es : List Expr) → Reports (Resolve.exprs context es) (Expr.allPlaces es)
  | [] => nothing
  | e :: es => (expr context e).andThen (exprs context es)

end

theorem optionalExpr (context : ResolveContext) : (e : Option Expr) →
    Reports (Resolve.optionalExpr context e) (Expr.optionalPlaces e)
  | none => nothing
  | some e => expr context e

mutual

/-- **The walk reports at the places of a statement**, in their order. -/
theorem stmt (context : ResolveContext) : (s : Stmt) → Reports (Resolve.stmt context s) s.places
  | .print _ value => expr context value
  | .expression value => expr context value
  | .varDecl name initializer =>
    (declare name).andThen
      ((optionalExpr context initializer).andQuietly (bind name.text true))
  | .block body => pushScope.andThen ((stmts context body).andQuietly popScope)
  | .ifElse condition thenBranch elseBranch =>
    (expr context condition).andThen
      ((stmt context thenBranch).andThen (optionalStmt context elseBranch))
  | .whileLoop condition body => (expr context condition).andThen (stmt context body)
  | .forEach _ name iterable body =>
    (expr context iterable).andThen ((declareFirst name).andThen
      ((bind name.text true).andThen ((stmt context body).andQuietly popScope)))
  | .funDecl declaration =>
    (declare declaration.name).andThen
      ((bind declaration.name.text true).andThen (function _ declaration))
  | .ret line value => by
    have inside := optionalExpr context value
    rw [Resolve.stmt, Stmt.places]
    by_cases top : context.function = .none
    · simp only [top, if_true, reduceCtorEq, and_false, if_false]
      exact (report ⟨"return", line⟩ .returnAtTopLevel).andThen inside
    · simp only [top, if_false]
      exact check _ .returnFromInitializer inside
  | .classDecl name parent methods => by
    have closed : Reports (if parent.isSome then Resolve.popScope else pure ()) [] := by
      split
      · exact popScope
      · exact nothing
    exact (declare name).andThen ((bind name.text true).andThen
      ((superclass context name parent).andThen (pushScope.andThen ((bind "this" true).andThen
        ((methodDecls _ methods).andQuietly (popScope.andQuietly closed))))))

theorem optionalStmt (context : ResolveContext) :
    (s : Option Stmt) → Reports (Resolve.optionalStmt context s) (Stmt.optionalPlaces s)
  | none => nothing
  | some s => stmt context s

theorem stmts (context : ResolveContext) :
    (body : List Stmt) → Reports (Resolve.stmts context body) (Stmt.allPlaces body)
  | [] => nothing
  | s :: rest => (stmt context s).andThen (stmts context rest)

/-- The parameters are declared before the body is walked over. -/
theorem function (context : ResolveContext) : (declaration : FunDecl) →
    Reports (Resolve.function context declaration) declaration.places
  | ⟨_, names, body⟩ =>
    pushScope.andThen ((params names).andThen ((stmts context body).andQuietly popScope))

/-- The name of a method is looked at nowhere. -/
theorem methodDecls (context : ResolveContext) : (methods : List FunDecl) →
    Reports (Resolve.methodDecls context methods) (FunDecl.allPlaces methods)
  | [] => nothing
  | method :: rest => (function _ method).andThen (methodDecls context rest)

end

end Reports

end Resolve

/-! ## 3. The order of the text

The grammar says which tokens lie between two spots.  `Spot.Holds` goes through it with the places
of what has been read, and each construct but two has its places in the order of its tokens. -/

/-- **What is walked over in another order than that of the text**: a place in the value of an
assignment to a property comes before those in the object, and one in the body of a `for` loop
before those in the increment. -/
inductive Exchanged (tokens : List Token) : Name → Name → Prop
  | value {a b : Spot} {object value : Expr} {property first second : Name}
      (inside : a.tokens <:+ tokens) (of : Grammar.Expression a (.set object property value) b)
      (mem : first ∈ value.places) (mem' : second ∈ object.places) : Exchanged tokens first second
  | body {a b c : Spot} {closed : Bool} {line : Nat} {initializer : Option Stmt}
      {condition : Expr} {step : Option Expr} {body : Stmt} {first second : Name}
      (inside : a.tokens <:+ tokens) (word : Grammar.Word .for a line b)
      (of : Grammar.Statement closed a (Grammar.loop initializer condition step body) c)
      (mem : first ∈ body.places) (mem' : second ∈ Expr.optionalPlaces step) :
      Exchanged tokens first second

/-- A spot stands among tokens that are in the order of their lines. -/
structure Spot.Within (tokens : List Token) (a : Spot) : Prop where
  sorted : tokens.Pairwise fun t t' => t.line ≤ t'.line
  suffix : a.tokens <:+ tokens

/-- The tokens between two spots hold some places.  They come in the order of their lines, but for
those that are exchanged. -/
def Spot.Holds (tokens : List Token) (a : Spot) (places : List Name) (b : Spot) : Prop :=
  a.Within tokens → ∃ consumed, a.tokens = consumed ++ b.tokens ∧
    (∀ place ∈ places, ∃ token ∈ consumed, token.line = place.line) ∧
    places.Pairwise fun first second => first.line ≤ second.line ∨ Exchanged tokens first second

namespace Spot.Holds

variable {tokens : List Token} {a b c : Spot} {places places' : List Name}

theorem nil : a.Holds tokens [] a :=
  fun _ => ⟨[], rfl, fun _ mem => absurd mem List.not_mem_nil, .nil⟩

theorem used (h : a.Holds tokens places b) : a.Holds tokens places b.used := h

/-- A token is stepped over. -/
theorem skip {token : Token} {rest : List Token} {id : Id} :
    Spot.Holds tokens ⟨token :: rest, id⟩ [] ⟨rest, id⟩ :=
  fun _ => ⟨[token], rfl, fun _ mem => absurd mem List.not_mem_nil, .nil⟩

/-- A token at which errors can be reported. -/
theorem take {token : Token} {rest : List Token} {id : Id}
    (h : ∀ place ∈ places, place.line = token.line) :
    Spot.Holds tokens ⟨token :: rest, id⟩ places ⟨rest, id⟩ := by
  refine fun _ => ⟨[token], rfl, fun place mem => ?_, ?_⟩
  · exact ⟨token, List.mem_singleton_self _, (h place mem).symm⟩
  · exact List.pairwise_of_forall_mem_list fun first mem second mem' =>
      .inl (Nat.le_of_eq ((h first mem).trans (h second mem').symm))

/-- Fewer places are in order where more are. -/
theorem mono (h : a.Holds tokens places b) (fewer : places'.Sublist places) :
    a.Holds tokens places' b := by
  intro within
  obtain ⟨consumed, split, holds, order⟩ := h within
  exact ⟨consumed, split, fun place mem => holds place (fewer.subset mem), order.sublist fewer⟩

/-- Two stretches of tokens, one behind the other.  A line in the first is at most a line in the
second. -/
theorem append (h : a.Holds tokens places b) (h' : b.Holds tokens places' c) :
    a.Holds tokens (places ++ places') c := by
  intro within
  obtain ⟨consumed, split, holds, order⟩ := h within
  obtain ⟨consumed', split', holds', order'⟩ :=
    h' ⟨within.sorted, List.IsSuffix.trans ⟨consumed, split.symm⟩ within.suffix⟩
  have between := within.sorted.sublist within.suffix.sublist
  rw [split, split'] at between
  refine ⟨consumed ++ consumed', by rw [split, split', List.append_assoc], fun place mem => ?_,
    List.pairwise_append.2 ⟨order, order', fun first mem second mem' => ?_⟩⟩
  · rcases List.mem_append.1 mem with mem | mem
    · obtain ⟨token, mem, same⟩ := holds place mem
      exact ⟨token, List.mem_append_left _ mem, same⟩
    · obtain ⟨token, mem, same⟩ := holds' place mem
      exact ⟨token, List.mem_append_right _ mem, same⟩
  · obtain ⟨token, mem, same⟩ := holds first mem
    obtain ⟨token', mem', same'⟩ := holds' second mem'
    left
    rw [← same, ← same']
    exact (List.pairwise_append.1 between).2.2 token mem token' (List.mem_append_left _ mem')

/-- Behind it nothing more is held. -/
theorem past (h : a.Holds tokens places b) (h' : b.Holds tokens [] c) :
    a.Holds tokens places c := by
  have both := h.append h'
  rwa [List.append_nil] at both

/-- What comes first in the text comes second in the walk. -/
theorem exchange (h : a.Holds tokens places b) (h' : b.Holds tokens places' c)
    (exchanged : a.tokens <:+ tokens →
      ∀ first ∈ places', ∀ second ∈ places, Exchanged tokens first second) :
    a.Holds tokens (places' ++ places) c := by
  intro within
  obtain ⟨consumed, split, holds, order⟩ := h.append h' within
  refine ⟨consumed, split, fun place mem => holds place ?_, ?_⟩
  · exact List.mem_append.2 (List.mem_append.1 mem).symm
  · obtain ⟨order, order', -⟩ := List.pairwise_append.1 order
    exact List.pairwise_append.2 ⟨order', order, fun first mem second mem' =>
      .inr (exchanged within.suffix first mem second mem')⟩

end Spot.Holds

namespace Grammar

variable {tokens : List Token} {a b : Spot}

theorem Mark.holds {symbol : Symbol} {line : Nat} : Mark symbol a line b → a.Holds tokens [] b
  | .mk => .skip

theorem Word.holds {keyword : Keyword} {line : Nat} : Word keyword a line b → a.Holds tokens [] b
  | .mk => .skip

/-- A keyword at which an error can be reported. -/
theorem Word.holdsOne {keyword : Keyword} {line : Nat} (text : String) :
    Word keyword a line b → a.Holds tokens [⟨text, line⟩] b
  | .mk => .take (by simp)

/-- A name is held by its own token. -/
theorem Named.holds {name : Name} : Named a name b → a.Holds tokens [name] b
  | .mk => .take (by simp)

/-- A name that is looked at twice. -/
theorem Named.holdsTwice {name : Name} : Named a name b → a.Holds tokens [name, name] b
  | .mk => .take (by simp)

/-- A name at which there is nothing to report. -/
theorem Named.holdsNone {name : Name} : Named a name b → a.Holds tokens [] b
  | .mk => .skip

theorem Value.holds {value : Literal} : Value a value b → a.Holds tokens [] b
  | .mk _ => .skip

theorem Before.holds {op : UnaryOp} {line : Nat} : Before a op line b → a.Holds tokens [] b
  | .mk _ => .skip

theorem Between.holds {level : Level} {op : Operator} {line : Nat} :
    Between level a op line b → a.Holds tokens [] b
  | .mk _ => .skip

/-- An operator has the places of its operands, the left one first. -/
theorem places_joined (line : Nat) (left right : Expr) (op : Operator) :
    (joined line left right op).places = left.places ++ right.places := by
  cases op <;> rw [joined, Expr.places]

mutual

/-- The tokens of an expression hold its places. -/
theorem Expression.holds {a b : Spot} {e : Expr} :
    Expression a e b → a.Holds tokens e.places b
  | .ladder of => of.holds
  | .assign target equal value =>
    target.holdsNone.used.append (equal.holds.append value.holds.used)
  | .set object dot property equal value => by
    have front := ((object.holds.past dot.holds).past property.holdsNone).past equal.holds
    exact front.exchange value.holds fun inside first mem second mem' =>
      .value inside (.set object dot property equal value) mem mem'

/-- The operands of a level, from left to right. -/
theorem Ladder.holds {level : Level} {a b : Spot} {e : Expr} :
    Ladder level a e b → a.Holds tokens e.places b
  | .operand of => of.holds
  | .join left operator right => by
    rw [places_joined]
    exact left.holds.append (operator.holds.append right.holds)

theorem Operand.holds {level : Level} {a b : Spot} {e : Expr} :
    Operand level a e b → a.Holds tokens e.places b
  | .ladder _ of => of.holds
  | .unary of => of.holds

theorem Unary.holds {a b : Spot} {e : Expr} : Unary a e b → a.Holds tokens e.places b
  | .op operator operand => operator.holds.append operand.holds
  | .call of => of.holds

/-- A callee, and the arguments or the name of the property behind it. -/
theorem Call.holds {a b : Spot} {e : Expr} : Call a e b → a.Holds tokens e.places b
  | .primary of => of.holds
  | .call callee left arguments _ right =>
    callee.holds.append (left.holds.append (arguments.holds.past right.holds))
  | .get object dot property => (object.holds.past dot.holds).past property.holdsNone

/-- A keyword such as `this` is a place too, the one where a wrong use is reported. -/
theorem Primary.holds {a b : Spot} {e : Expr} : Primary a e b → a.Holds tokens e.places b
  | .literal of => of.holds
  | .named of => of.holds.used
  | .this word => (word.holdsOne "this").used
  | .super word dot method =>
    (((word.holdsOne "super").past dot.holds).past method.holdsNone).used
  | .grouping left inner right => left.holds.append (inner.holds.past right.holds)
  | .list left elements right => left.holds.append (elements.holds.past right.holds)

theorem Series.holds {a b : Spot} {es : List Expr} :
    Series a es b → a.Holds tokens (Expr.allPlaces es) b
  | .none => .nil
  | .some of => of.holds

/-- Items with commas between. -/
theorem Items.holds {a b : Spot} {es : List Expr} :
    Items a es b → a.Holds tokens (Expr.allPlaces es) b
  | .last item => item.holds.append .nil
  | .more item comma rest => item.holds.append (comma.holds.append rest.holds)

end

/-- Parameters with commas between. -/
theorem Names.holds {names : List Name} : {a : Spot} → Names a names b → a.Holds tokens names b
  | _, .last item => item.holds
  | _, .more item comma rest => item.holds.append (comma.holds.append rest.holds)

theorem Parameters.holds {names : List Name} : Parameters a names b → a.Holds tokens names b
  | .none => .nil
  | .some of _ => of.holds

theorem Optional.holds {value : Option Expr} :
    Optional a value b → a.Holds tokens (Expr.optionalPlaces value) b
  | .none => .nil
  | .some of => of.holds

theorem Initial.holds {value : Option Expr} :
    Initial a value b → a.Holds tokens (Expr.optionalPlaces value) b
  | .none => .nil
  | .some equal of => equal.holds.append of.holds

theorem Superclass.holds {parent : Option Variable} :
    Superclass a parent b → a.Holds tokens (Variable.superclassPlaces parent) b
  | .none => .nil
  | .some less of => less.holds.append of.holdsTwice.used

theorem Var.holds {s : Stmt} : Var a s b → a.Holds tokens s.places b
  | .mk word of initial semicolon =>
    word.holds.append (of.holds.append (initial.holds.past semicolon.holds))

theorem Evaluation.holds {s : Stmt} : Evaluation a s b → a.Holds tokens s.places b
  | .mk value semicolon => value.holds.past semicolon.holds

theorem OptionalVar.holds : OptionalVar a b → a.Holds tokens [] b
  | .none => .nil
  | .some word => word.holds

/-- The first clause of a `for` loop. -/
theorem First.holds {first : Option Stmt} :
    First a first b → a.Holds tokens (Stmt.optionalPlaces first) b
  | .none semicolon => semicolon.holds
  | .varDecl of => of.holds
  | .expression of => of.holds

theorem Test.holds {e : Expr} : Test a e b → a.Holds tokens e.places b
  | .none => .nil
  | .some of => of.holds

/-- A `for` loop is walked over in the order of the tree that it stands for: the increment comes
behind the body. -/
theorem places_loop (first : Option Stmt) (condition : Expr) (step : Option Expr) (body : Stmt) :
    (Grammar.loop first condition step body).places = Stmt.optionalPlaces first ++
      (condition.places ++ (body.places ++ Expr.optionalPlaces step)) := by
  cases first <;> cases step <;>
    simp [Grammar.loop, Stmt.places, Stmt.allPlaces, Stmt.optionalPlaces, Expr.optionalPlaces]

mutual

/-- The tokens of a statement hold its places. -/
theorem Declaration.holds {a b : Spot} {s : Stmt} : Declaration a s b → a.Holds tokens s.places b
  | .classDecl word of extended left body right =>
    word.holds.append (of.holds.append (extended.holds.append
      (left.holds.append (body.holds.past right.holds))))
  | .funDecl word of => word.holds.append of.holds
  | .varDecl of => of.holds
  | .statement of => of.holds

theorem Declarations.holds {a b : Spot} {body : List Stmt} :
    Declarations a body b → a.Holds tokens (Stmt.allPlaces body) b
  | .none => .nil
  | .more first rest => first.holds.append rest.holds

theorem Block.holds {a b : Spot} {body : List Stmt} :
    Block a body b → a.Holds tokens (Stmt.allPlaces body) b
  | .mk left of right => left.holds.append (of.holds.past right.holds)

/-- The name of a function stands in front of its parameters and its body. -/
theorem Function.holds {a b : Spot} {declaration : FunDecl} :
    Function a declaration b → a.Holds tokens (declaration.name :: declaration.places) b
  | .mk of left parameters right block =>
    of.holds.append (left.holds.append (parameters.holds.append
      (right.holds.append block.holds)))

theorem Methods.holds {a b : Spot} {methods : List FunDecl} :
    Methods a methods b → a.Holds tokens (FunDecl.allPlaces methods) b
  | .none => .nil
  | .more first rest => (first.holds.mono (List.sublist_cons_self _ _)).append rest.holds

/-- One case for each kind of statement.  A `for` loop is the case where two stretches are
exchanged. -/
theorem Statement.holds {closed : Bool} {a b : Spot} {s : Stmt} :
    Statement closed a s b → a.Holds tokens s.places b
  | .ifThen word left condition right branch =>
    word.holds.append (left.holds.append (condition.holds.append
      (right.holds.append (branch.holds.append .nil))))
  | .ifElse word left condition right branch otherwise branch' =>
    word.holds.append (left.holds.append (condition.holds.append
      (right.holds.append (branch.holds.append (otherwise.holds.append branch'.holds)))))
  | .print word value semicolon => word.holds.append (value.holds.past semicolon.holds)
  | .ret word of semicolon => (word.holdsOne "return").append (of.holds.past semicolon.holds)
  | .block of => of.holds
  | .whileLoop word left condition right body =>
    word.holds.append (left.holds.append (condition.holds.append
      (right.holds.append body.holds)))
  | .forLoop word left initializer condition semicolon increment right body => by
    rw [places_loop]
    intro within
    have turn := (increment.holds.past right.holds).exchange body.holds
      fun _ first mem second mem' => .body within.suffix word
        (.forLoop word left initializer condition semicolon increment right body) mem mem'
    exact (word.holds.append (left.holds.append (initializer.holds.append (condition.holds.append
      (semicolon.holds.append turn))))) within
  | .forEach word left declared item semicolon iterable right body =>
    word.holds.append (left.holds.append (declared.holds.append (item.holdsNone.append
      (semicolon.holds.append (iterable.holds.append (right.holds.append body.holds))))))
  | .evaluation of => of.holds

end

end Grammar

/-! ## 4. Static errors

Both halves of the checks put together: the reader reports in the order of the tokens, the walk in
the order of the tree. -/

/-- **Static errors come in source order, but for three constructs.**

* Syntax errors are reported in the order of their lines, save that an invalid target of an
  assignment comes behind the errors of its value, which stand on the line of the `=` or below.
* So are the errors of the resolver, save that those of the value of an assignment to a property
  come before those of the object, and those of the body of a `for` loop before those of the
  increment. -/
theorem static_errors_in_order {source : String} {stream : TokenStream}
    (scanned : scan source = .ok stream) (firstId : Id) :
    (∀ errors, (parse stream firstId).result = .error (.errors errors) →
      InOrder stream errors) ∧
    ∀ program errors, (parse stream firstId).result = .ok program →
      resolve program = .error errors → errors.Pairwise fun e e' => e.place.line ≤ e'.place.line ∨
        Exchanged stream.tokens e.place e'.place := by
  constructor
  · intro errors failed
    have inOrder := inOrder_of_parse scanned firstId
    rwa [Parsed.errors, failed] at inOrder
  · intro program errors parsed failed
    have sorted : stream.tokens.Pairwise fun t t' => t.line ≤ t'.line :=
      List.pairwise_map.1 (List.pairwise_append.1 (sorted_of_scan scanned)).1
    obtain ⟨-, -, -, order⟩ :=
      (declarations_of_parse parsed).holds ⟨sorted, List.suffix_refl _⟩
    obtain ⟨new, reported, sublist⟩ :=
      Resolve.Reports.stmts ⟨.none, .none⟩ program ⟨[], .empty, []⟩
    have same : new = errors := by
      change (if (Resolve.finish program).errors.isEmpty then
        Except.ok (Resolve.finish program).resolution
          else .error (Resolve.finish program).errors) = _ at failed
      split at failed
      · cases failed
      · exact reported.symm.trans (Except.error.inj failed)
    subst same
    exact List.pairwise_map.1 (order.sublist sublist)

/-- An invalid target whose value is one too. -/
def targetInTarget : String := "nil =\nnil = nil;"

/-- Wrong uses of `this` in the object and in the value of an assignment. -/
def wrongObject : String := "this.x =\nthis;"

/-- Wrong uses of `this` in the increment and in the body of a loop. -/
def wrongIncrement : String := "for (;; this)\nthis;"

/-- **Lines can go back**, in each of the three constructs. -/
theorem lines_go_back :
    (∃ stream errors, scan targetInTarget = .ok stream ∧
      (parse stream 0).result = .error (.errors errors) ∧ errors.map SyntaxError.line = [2, 1]) ∧
    (∃ stream program errors, scan wrongObject = .ok stream ∧
      (parse stream 0).result = .ok program ∧ resolve program = .error errors ∧
        errors.map (fun error => error.place.line) = [2, 1]) ∧
    ∃ stream program errors, scan wrongIncrement = .ok stream ∧
      (parse stream 0).result = .ok program ∧ resolve program = .error errors ∧
        errors.map (fun error => error.place.line) = [2, 1] :=
  ⟨⟨_, _, by cbv, by cbv, by cbv⟩, ⟨_, _, _, by cbv, by cbv, by cbv, by cbv⟩,
    ⟨_, _, _, by cbv, by cbv, by cbv, by cbv⟩⟩

/-- In the first two programs an invalid target comes late, and the object of an assignment. -/
theorem late_errors_are_exceptions :
    (∃ stream, scan targetInTarget = .ok stream ∧
      InOrder stream [⟨2, some "=", .invalidTarget⟩, ⟨1, some "=", .invalidTarget⟩]) ∧
    ∃ stream, scan wrongObject = .ok stream ∧
      ([⟨⟨"this", 2⟩, .thisOutsideClass⟩, ⟨⟨"this", 1⟩, .thisOutsideClass⟩] :
        List ResolutionError).Pairwise fun e e' => e.place.line ≤ e'.place.line ∨
          Exchanged stream.tokens e.place e'.place := by
  obtain ⟨stream, scanned, failed⟩ : ∃ stream, scan targetInTarget = .ok stream ∧
      (parse stream 0).result = .error (.errors
        [⟨2, some "=", .invalidTarget⟩, ⟨1, some "=", .invalidTarget⟩]) := ⟨_, by cbv, by cbv⟩
  obtain ⟨stream', program, scanned', parsed, failed'⟩ : ∃ stream program,
      scan wrongObject = .ok stream ∧ (parse stream 0).result = .ok program ∧
        resolve program = .error
          [⟨⟨"this", 2⟩, .thisOutsideClass⟩, ⟨⟨"this", 1⟩, .thisOutsideClass⟩] :=
    ⟨_, _, by cbv, by cbv, by cbv⟩
  exact ⟨⟨stream, scanned, (static_errors_in_order scanned 0).1 _ failed⟩, stream', scanned',
    (static_errors_in_order scanned' 0).2 program _ parsed failed'⟩

end Lox
