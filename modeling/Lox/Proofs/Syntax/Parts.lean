/-
# The expressions of a program

`Stmt.allExpressions` lists every expression that stands somewhere in a program.  The names in them
are names of the text, and their strings are strings of it (`clear_of_parse`): no name is a reserved
word, and no string has a quote in it.
-/
import Lox.Proofs.Syntax.Spelling

namespace Lox

/-! ## 1. Expressions

Lists of all expressions in a tree, by recursion on it. -/

mutual

/-- The expressions in an expression, itself among them. -/
def Expr.parts : Expr → List Expr
  | .literal value => [.literal value]
  | .grouping inner => .grouping inner :: inner.parts
  | .unary op line operand => .unary op line operand :: operand.parts
  | .binary op line left right => .binary op line left right :: (left.parts ++ right.parts)
  | .logical op line left right => .logical op line left right :: (left.parts ++ right.parts)
  | .variable v => [.variable v]
  | .assign target value => .assign target value :: value.parts
  | .call callee arguments line =>
    .call callee arguments line :: (callee.parts ++ Expr.allParts arguments)
  | .get object property => .get object property :: object.parts
  | .set object property value => .set object property value :: (object.parts ++ value.parts)
  | .this id line => [.this id line]
  | .super id line method => [.super id line method]
  | .list line elements => .list line elements :: Expr.allParts elements

def Expr.allParts : List Expr → List Expr
  | [] => []
  | e :: es => e.parts ++ Expr.allParts es

end

/-- The expressions in an expression, where there may be none. -/
def Expr.optionalParts : Option Expr → List Expr
  | none => []
  | some e => e.parts

mutual

/-- The expressions in a statement.  The name of a class that is extended is one of them. -/
def Stmt.expressions : Stmt → List Expr
  | .print _ value => value.parts
  | .expression value => value.parts
  | .varDecl _ initializer => Expr.optionalParts initializer
  | .block body => Stmt.allExpressions body
  | .ifElse condition thenBranch elseBranch =>
    condition.parts ++ (thenBranch.expressions ++ Stmt.optionalExpressions elseBranch)
  | .whileLoop condition body => condition.parts ++ body.expressions
  | .forEach _ _ iterable body => iterable.parts ++ body.expressions
  | .funDecl declaration => declaration.expressions
  | .ret _ value => Expr.optionalParts value
  | .classDecl _ superclass methods =>
    Expr.optionalParts (superclass.map .variable) ++ FunDecl.allExpressions methods

def Stmt.optionalExpressions : Option Stmt → List Expr
  | none => []
  | some s => s.expressions

def Stmt.allExpressions : List Stmt → List Expr
  | [] => []
  | s :: rest => s.expressions ++ Stmt.allExpressions rest

def FunDecl.expressions : FunDecl → List Expr
  | ⟨_, _, body⟩ => Stmt.allExpressions body

def FunDecl.allExpressions : List FunDecl → List Expr
  | [] => []
  | method :: rest => method.expressions ++ FunDecl.allExpressions rest

end

/-- An expression is one of its parts. -/
theorem Expr.mem_parts_self (e : Expr) : e ∈ e.parts := by
  cases e <;> simp [parts]

/-! ## 2. Names and strings

An expression is clear if its tokens are.  So its parts are, since their tokens are among its
own. -/

/-- A token whose name or string is like those of a program, and whose number is of some kind. -/
structure Token.Clear (Q : Float → Prop) (token : Token) : Prop where
  name : token.kind = .identifier → Lexeme token.lexeme.toList .identifier
  string : ∀ contents, token.kind = .string contents → '"' ∉ contents.toList
  number : ∀ value, token.kind = .number value → Q value

/-- Whether a token is clear does not depend on its line or its spelling. -/
theorem Token.Clear.plain {Q : Float → Prop} {token : Token} (clear : token.Clear Q) :
    token.plain.Clear Q := by
  refine ⟨fun name => ?_, clear.string, clear.number⟩
  have same : token.plain.lexeme = token.lexeme := by
    unfold Token.plain
    rw [show token.kind = .identifier from name]
    rfl
  exact same ▸ clear.name name

/-- An expression with clear tokens. -/
def Expr.Clear (Q : Float → Prop) (e : Expr) : Prop := ∀ token ∈ e.tokens, token.Clear Q

/-- The tokens of an item stand in the list. -/
theorem Expr.mem_moreTokens {token : Token} {e : Expr} {es : List Expr} (mem : e ∈ es)
    (stands : token ∈ e.tokens) : token ∈ Expr.moreTokens es := by
  induction es with
  | nil => cases mem
  | cons first rest ih =>
    rw [moreTokens, List.cons_append]
    refine List.mem_cons_of_mem _ (List.mem_append.2 ?_)
    rcases List.mem_cons.1 mem with rfl | mem
    · exact .inl stands
    · exact .inr (ih mem)

/-- The tokens of an item stand in the series. -/
theorem Expr.mem_seriesTokens {token : Token} {e : Expr} {es : List Expr} (mem : e ∈ es)
    (stands : token ∈ e.tokens) : token ∈ Expr.seriesTokens es := by
  cases es with
  | nil => cases mem
  | cons first rest =>
    rw [seriesTokens]
    rcases List.mem_cons.1 mem with rfl | mem
    · exact List.mem_append_left _ stands
    · exact List.mem_append_right _ (mem_moreTokens mem stands)

namespace Expr.Clear

variable {Q : Float → Prop} {op : BinaryOp} {op' : LogicalOp} {op'' : UnaryOp} {line id : Nat}
  {e l r : Expr} {es : List Expr} {name : Name} {v : Variable}

/-- A weaker condition on numbers. -/
theorem mono {R : Float → Prop} (clear : e.Clear Q) (h : ∀ x, Q x → R x) : e.Clear R :=
  fun token mem => ⟨(clear token mem).name, (clear token mem).string,
    fun value found => h value ((clear token mem).number value found)⟩

theorem grouping (clear : (grouping e).Clear Q) : e.Clear Q := fun token mem =>
  clear token (by simp [tokens, mem])

theorem unary (clear : (unary op'' line e).Clear Q) : e.Clear Q := fun token mem =>
  clear token (by simp [tokens, mem])

/-- The tokens of an operand stand in the whole expression. -/
theorem binary (clear : (binary op line l r).Clear Q) : l.Clear Q ∧ r.Clear Q :=
  ⟨fun token mem => clear token (by simp [tokens, mem]),
    fun token mem => clear token (by simp [tokens, mem])⟩

theorem logical (clear : (logical op' line l r).Clear Q) : l.Clear Q ∧ r.Clear Q :=
  ⟨fun token mem => clear token (by simp [tokens, mem]),
    fun token mem => clear token (by simp [tokens, mem])⟩

theorem occurrence (clear : (Expr.variable v).Clear Q) : Lexeme v.name.text.toList .identifier :=
  (clear v.name.token (by simp [tokens])).name rfl

theorem assign (clear : (assign v e).Clear Q) :
    Lexeme v.name.text.toList .identifier ∧ e.Clear Q :=
  ⟨(clear v.name.token (by simp [tokens])).name rfl,
    fun token mem => clear token (by simp [tokens, mem])⟩

/-- The callee and the arguments are clear. -/
theorem call (clear : (call e es line).Clear Q) : e.Clear Q ∧ ∀ e' ∈ es, e'.Clear Q :=
  ⟨fun token mem => clear token (by simp [tokens, mem]),
    fun e' mem token stands => clear token (by simp [tokens, mem_seriesTokens mem stands])⟩

/-- The name of a property is a name of the text. -/
theorem get (clear : (get e name).Clear Q) : e.Clear Q ∧ Lexeme name.text.toList .identifier :=
  ⟨fun token mem => clear token (by simp [tokens, mem]),
    (clear name.token (by simp [tokens])).name rfl⟩

theorem set (clear : (set l name r).Clear Q) :
    l.Clear Q ∧ Lexeme name.text.toList .identifier ∧ r.Clear Q :=
  ⟨fun token mem => clear token (by simp [tokens, mem]),
    (clear name.token (by simp [tokens])).name rfl,
    fun token mem => clear token (by simp [tokens, mem])⟩

theorem super (clear : (super id line name).Clear Q) : Lexeme name.text.toList .identifier :=
  (clear name.token (by simp [tokens])).name rfl

theorem list (clear : (list line es).Clear Q) : ∀ e ∈ es, e.Clear Q :=
  fun e mem token stands => clear token (by simp [tokens, mem_seriesTokens mem stands])

end Expr.Clear

mutual

/-- The parts of a clear expression are clear. -/
theorem Expr.Clear.parts {Q : Float → Prop} :
    (e : Expr) → e.Clear Q → ∀ part ∈ e.parts, part.Clear Q
  | .literal _, clear | .variable _, clear | .this _ _, clear | .super _ _ _, clear =>
    List.forall_mem_singleton.2 clear
  | .grouping inner, clear => List.forall_mem_cons.2 ⟨clear, parts inner clear.grouping⟩
  | .unary _ _ operand, clear => List.forall_mem_cons.2 ⟨clear, parts operand clear.unary⟩
  | .binary _ _ left right, clear => List.forall_mem_cons.2 ⟨clear, List.forall_mem_append.2
    ⟨parts left clear.binary.1, parts right clear.binary.2⟩⟩
  | .logical _ _ left right, clear => List.forall_mem_cons.2 ⟨clear, List.forall_mem_append.2
    ⟨parts left clear.logical.1, parts right clear.logical.2⟩⟩
  | .assign _ value, clear => List.forall_mem_cons.2 ⟨clear, parts value clear.assign.2⟩
  | .call callee arguments _, clear => List.forall_mem_cons.2 ⟨clear, List.forall_mem_append.2
    ⟨parts callee clear.call.1, allParts arguments clear.call.2⟩⟩
  | .get object _, clear => List.forall_mem_cons.2 ⟨clear, parts object clear.get.1⟩
  | .set object _ value, clear => List.forall_mem_cons.2 ⟨clear, List.forall_mem_append.2
    ⟨parts object clear.set.1, parts value clear.set.2.2⟩⟩
  | .list _ elements, clear => List.forall_mem_cons.2 ⟨clear, allParts elements clear.list⟩

theorem Expr.Clear.allParts {Q : Float → Prop} : (es : List Expr) → (∀ e ∈ es, e.Clear Q) →
    ∀ part ∈ Expr.allParts es, part.Clear Q
  | [], _ => nofun
  | e :: es, clear => List.forall_mem_append.2 ⟨parts e (clear e List.mem_cons_self),
    allParts es fun e' mem => clear e' (List.mem_cons_of_mem e mem)⟩

end

/-- The tokens of a text are clear. -/
theorem clear_of_scan {source : String} {stream : TokenStream} (h : scan source = .ok stream) :
    ∀ token ∈ stream.tokens, token.Clear fun _ => True := by
  have lexeme : ∀ token ∈ stream.tokens, Lexeme token.lexeme.toList token.kind :=
    forall_tokens_of_scan (P := fun kind text => Lexeme text.toList kind)
      (fun c rest kind found => by
        rw [String.toList_ofList]
        exact lexeme_firstPiece found) h
  intro token mem
  refine ⟨fun name => name ▸ lexeme token mem, fun contents string => ?_, fun _ _ => trivial⟩
  have shape := lexeme token mem
  rw [string] at shape
  generalize token.lexeme.toList = text at shape
  cases shape with
  | string closed => rwa [String.toList_ofList]

/-! ## 3. Derivations

The grammar is followed from spot to spot, with the expressions that have been made since. -/

/-- From one spot to another there are these expressions, all of them clear if the tokens are, and
the tokens that are left are clear then. -/
def Spot.Makes (Q : Float → Prop) (a : Spot) (es : List Expr) (b : Spot) : Prop :=
  (∀ token ∈ a.tokens, token.Clear Q) → (∀ e ∈ es, e.Clear Q) ∧ ∀ token ∈ b.tokens, token.Clear Q

namespace Spot.Makes

variable {Q : Float → Prop} {a b c : Spot} {es es' : List Expr}

theorem nil : a.Makes Q [] a := fun clear => ⟨nofun, clear⟩

theorem skip {token : Token} {tokens : List Token} {id : Id} :
    Spot.Makes Q ⟨token :: tokens, id⟩ [] ⟨tokens, id⟩ :=
  fun clear => ⟨nofun, fun _ mem => clear _ (List.mem_cons_of_mem _ mem)⟩

/-- Two stretches of tokens, one behind the other. -/
theorem append (h : a.Makes Q es b) (h' : b.Makes Q es' c) : a.Makes Q (es ++ es') c := by
  intro clear
  obtain ⟨first, left⟩ := h clear
  obtain ⟨second, left'⟩ := h' left
  exact ⟨List.forall_mem_append.2 ⟨first, second⟩, left'⟩

/-- Behind expressions there is something without any. -/
theorem past (h : a.Makes Q es b) (h' : b.Makes Q [] c) : a.Makes Q es c :=
  List.append_nil es ▸ h.append h'

end Spot.Makes

namespace Grammar

variable {Q : Float → Prop} {a b : Spot}

theorem Mark.makes {symbol : Symbol} {line : Nat} : Mark symbol a line b → a.Makes Q [] b
  | .mk => .skip

theorem Word.makes {keyword : Keyword} {line : Nat} : Word keyword a line b → a.Makes Q [] b
  | .mk => .skip

theorem Named.makes {name : Name} : Named a name b → a.Makes Q [] b
  | .mk => .skip

/-- An expression makes its parts.  Its tokens are those that it was read from, so they are
clear. -/
theorem Expression.makes {e : Expr} (h : Expression a e b) : a.Makes Q e.parts b := by
  intro clear
  obtain ⟨consumed, found, plain⟩ := h.yields
  rw [found, List.forall_mem_append] at clear
  refine ⟨Expr.Clear.parts e fun token mem => ?_, clear.2⟩
  rw [← plain] at mem
  obtain ⟨token', mem', rfl⟩ := List.mem_map.1 mem
  exact (clear.1 token' mem').plain

theorem Names.makes {names : List Name} : {a : Spot} → Names a names b → a.Makes Q [] b
  | _, .last item => item.makes
  | _, .more item comma rest => item.makes.append (comma.makes.append rest.makes)

theorem Parameters.makes {names : List Name} : Parameters a names b → a.Makes Q [] b
  | .none => .nil
  | .some of _ => of.makes

/-- An expression that is absent makes nothing. -/
theorem Optional.makes {value : Option Expr} :
    Optional a value b → a.Makes Q (Expr.optionalParts value) b
  | .none => .nil
  | .some of => of.makes

theorem Initial.makes {value : Option Expr} :
    Initial a value b → a.Makes Q (Expr.optionalParts value) b
  | .none => .nil
  | .some equal of => equal.makes.append of.makes

/-- The name of a superclass is an expression of its own. -/
theorem Superclass.makes {parent : Option Variable} :
    Superclass a parent b → a.Makes Q (Expr.optionalParts (parent.map .variable)) b
  | .none => .nil
  | .some less of => less.makes.append
      (Unary.call (.primary (.named of))).expression.makes

theorem Var.makes {s : Stmt} : Var a s b → a.Makes Q s.expressions b
  | .mk word of initial semicolon =>
    word.makes.append (of.makes.append (initial.makes.past semicolon.makes))

theorem Evaluation.makes {s : Stmt} : Evaluation a s b → a.Makes Q s.expressions b
  | .mk value semicolon => value.makes.past semicolon.makes

theorem OptionalVar.makes : OptionalVar a b → a.Makes Q [] b
  | .none => .nil
  | .some word => word.makes

theorem First.makes {first : Option Stmt} :
    First a first b → a.Makes Q (Stmt.optionalExpressions first) b
  | .none semicolon => semicolon.makes
  | .varDecl of => of.makes
  | .expression of => of.makes

/-- The condition of a loop that goes on for ever is in no text, but it has no name in it. -/
theorem Test.makes {e : Expr} : Test a e b → a.Makes Q e.parts b
  | .none => fun clear => ⟨List.forall_mem_singleton.2 (List.forall_mem_singleton.2
      ⟨nofun, nofun, nofun⟩), clear⟩
  | .some of => of.makes

/-- The expressions of a `for` loop, in the order in which they stand in its tree. -/
theorem expressions_loop (first : Option Stmt) (condition : Expr) (step : Option Expr)
    (body : Stmt) :
    (Grammar.loop first condition step body).expressions = Stmt.optionalExpressions first ++
      (condition.parts ++ (body.expressions ++ Expr.optionalParts step)) := by
  cases first <;> cases step <;>
    simp [Grammar.loop, Stmt.expressions, Stmt.allExpressions, Stmt.optionalExpressions,
      Expr.optionalParts]

mutual

/-- The expressions of a statement are clear if its tokens are. -/
theorem Declaration.makes {a b : Spot} {s : Stmt} : Declaration a s b → a.Makes Q s.expressions b
  | .classDecl word of extended left body right =>
    word.makes.append (of.makes.append (extended.makes.append
      (left.makes.append (body.makes.past right.makes))))
  | .funDecl word of => word.makes.append of.makes
  | .varDecl of => of.makes
  | .statement of => of.makes

theorem Declarations.makes {a b : Spot} {body : List Stmt} :
    Declarations a body b → a.Makes Q (Stmt.allExpressions body) b
  | .none => .nil
  | .more first rest => first.makes.append rest.makes

theorem Block.makes {a b : Spot} {body : List Stmt} :
    Block a body b → a.Makes Q (Stmt.allExpressions body) b
  | .mk left of right => left.makes.append (of.makes.past right.makes)

theorem Function.makes {a b : Spot} {declaration : FunDecl} :
    Function a declaration b → a.Makes Q declaration.expressions b
  | .mk of left parameters right block =>
    of.makes.append (left.makes.append (parameters.makes.append
      (right.makes.append block.makes)))

theorem Methods.makes {a b : Spot} {methods : List FunDecl} :
    Methods a methods b → a.Makes Q (FunDecl.allExpressions methods) b
  | .none => .nil
  | .more first rest => first.makes.append rest.makes

/-- One case for each kind of statement. -/
theorem Statement.makes {closed : Bool} {a b : Spot} {s : Stmt} :
    Statement closed a s b → a.Makes Q s.expressions b
  | .ifThen word left condition right branch =>
    word.makes.append (left.makes.append (condition.makes.append
      (right.makes.append (branch.makes.append .nil))))
  | .ifElse word left condition right branch otherwise branch' =>
    word.makes.append (left.makes.append (condition.makes.append
      (right.makes.append (branch.makes.append (otherwise.makes.append branch'.makes)))))
  | .print word value semicolon => word.makes.append (value.makes.past semicolon.makes)
  | .ret word of semicolon => word.makes.append (of.makes.past semicolon.makes)
  | .block of => of.makes
  | .whileLoop word left condition right body =>
    word.makes.append (left.makes.append (condition.makes.append
      (right.makes.append body.makes)))
  | .forLoop word left initializer condition semicolon increment right body => by
    -- The increment is in front of the body in the text, and behind it in the loop.
    rw [expressions_loop]
    intro clear
    obtain ⟨all, rest⟩ := (word.makes.append (left.makes.append (initializer.makes.append
      (condition.makes.append (semicolon.makes.append ((increment.makes.past right.makes).append
        body.makes)))))) clear
    refine ⟨fun e mem => all e ?_, rest⟩
    simp only [List.nil_append, List.mem_append] at mem ⊢
    tauto
  | .forEach word left declared item semicolon iterable right body =>
    word.makes.append (left.makes.append (declared.makes.append (item.makes.append
      (semicolon.makes.append (iterable.makes.append (right.makes.append body.makes))))))
  | .evaluation of => of.makes

end

end Grammar

/-- The names and strings in the expressions of a program are like those of its text. -/
theorem clear_of_parse {source : String} {stream : TokenStream} {program : List Stmt} {firstId : Id}
    (scanned : scan source = .ok stream) (parsed : (parse stream firstId).result = .ok program) :
    ∀ e ∈ Stmt.allExpressions program, e.Clear fun _ => True :=
  ((declarations_of_parse parsed).makes (clear_of_scan scanned)).1

end Lox
