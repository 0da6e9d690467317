/-
# Reading comes to an end

The fuel that `parse` supplies is enough for every text, whether it can be read or not: reading
ends with a program or with errors (`parse_ends`).

`Lasts` says of a reader that it does not run out of fuel when so many tokens are left, and how many
of them it takes at least.  A phrase of `n` tokens needs at most `16 * n` levels of calls and a few
more: sixteen lie between an expression and the expressions inside its brackets.
-/
import Lox.Proofs.Syntax.Completeness

namespace Lox

namespace Parse

variable {α β : Type} {lo n k k' fuel : Nat}

/-! ## 1. Readers

The number of tokens left is what goes down.  A reader is followed by one with fewer tokens, for
which less fuel is enough. -/

/-- How a reader may end that began with `size` tokens left and takes at least `k` of them. -/
def EndsWithin (k size : Nat) : EStateM.Result ParseStop ParseState α → Prop
  | .ok _ state => state.rest.length + k ≤ size
  | .error (.error _) state => state.rest.length ≤ size
  | .error .outOfFuel _ => False

/-- From `lo` up to `n` tokens the reader does not run out of fuel.  It takes at least `k`. -/
def Lasts (lo n k : Nat) (x : Parse α) : Prop :=
  ∀ state : ParseState, lo ≤ state.rest.length → state.rest.length ≤ n →
    EndsWithin k state.rest.length (x state)

namespace Lasts

theorem pure (v : α) : Lasts lo n 0 (Pure.pure v) := fun _ _ _ => Nat.le_refl _

theorem failHere (cause : SyntaxCause) : Lasts lo n k (Parse.failHere cause : Parse α) :=
  fun _ _ _ => Nat.le_refl _

/-- The tokens that the first reader takes are not there for the second. -/
theorem bind {x : Parse α} {f : α → Parse β} (h : Lasts lo n k x)
    (hf : k ≤ n → ∀ v, Lasts 0 (n - k) k' (f v)) : Lasts lo n (k + k') (x >>= f) := by
  intro state least most
  have first := h state least most
  change EndsWithin _ _ (EStateM.bind x f state)
  unfold EStateM.bind
  cases hx : x state with
  | ok v t =>
    rw [hx] at first
    change t.rest.length + k ≤ _ at first
    have second := hf (by omega) v t (Nat.zero_le _) (by omega)
    dsimp only
    cases hy : f v t with
    | ok w u =>
      rw [hy] at second
      change u.rest.length + k' ≤ _ at second
      change u.rest.length + (k + k') ≤ _
      omega
    | error stop u =>
      rw [hy] at second
      cases stop with
      | error error =>
        change u.rest.length ≤ _ at second
        change u.rest.length ≤ _
        omega
      | outOfFuel => exact second
  | error stop t =>
    rw [hx] at first
    cases stop with
    | error error => exact first
    | outOfFuel => exact first

/-- A reader that takes many tokens takes few. -/
theorem weaken {x : Parse α} (h : Lasts lo n k x) (fewer : k' ≤ k) : Lasts lo n k' x := by
  intro state least most
  have first := h state least most
  cases hx : x state with
  | ok v t =>
    rw [hx] at first
    change t.rest.length + k ≤ _ at first
    change t.rest.length + k' ≤ _
    omega
  | error stop t =>
    rw [hx] at first
    cases stop with
    | error error => exact first
    | outOfFuel => exact first

/-- What lasts on every number of tokens does so where there is one. -/
theorem nonempty {x : Parse α} (h : Lasts 0 n k x) : Lasts 1 n k x :=
  fun state _ most => h state (Nat.zero_le _) most

/-- What follows a reader that takes enough may take any number of tokens. -/
theorem andThen {x : Parse α} {f : α → Parse β} (h : Lasts lo n k x)
    (hf : k ≤ n → ∀ v, Lasts 0 (n - k) 0 (f v)) : Lasts lo n k (x >>= f) :=
  h.bind hf

/-- A reader that takes enough, where nothing has to be taken. -/
theorem followed {x : Parse α} {f : α → Parse β} (h : Lasts lo n k x)
    (hf : k ≤ n → ∀ v, Lasts 0 (n - k) 0 (f v)) : Lasts lo n 0 (x >>= f) :=
  (h.andThen hf).weaken (Nat.zero_le k)

/-- A reader need not take anything if what follows it takes enough. -/
theorem first {x : Parse α} {f : α → Parse β} (h : Lasts lo n 0 x) (hf : ∀ v, Lasts 0 n k (f v)) :
    Lasts lo n k (x >>= f) := by
  rw [← Nat.zero_add k]
  exact h.bind fun _ => hf

/-- What is made of a phrase makes no difference. -/
theorem map {x : Parse α} (f : α → β) (h : Lasts lo n k x) : Lasts lo n k (f <$> x) := by
  rw [← bind_pure_comp]
  exact h.andThen fun _ v => .pure (f v)

/-- A choice of two readers that take equally many tokens at least. -/
theorem ite {p : Prop} [Decidable p] {x y : Parse α} (h : Lasts lo n k x) (h' : Lasts lo n k y) :
    Lasts lo n k (if p then x else y) := by
  by_cases hp : p
  · rw [if_pos hp]
    exact h
  · rw [if_neg hp]
    exact h'

/-- Readers that look at the next token first: if there is one, a token is left. -/
theorem peeking {f : Option Token → Parse α} (none : Lasts 0 n k (f none))
    (some : ∀ t, Lasts 1 n k (f (some t))) : Lasts 0 n k (do f (← peek?)) := by
  intro state least most
  change EndsWithin k _ (f state.rest.head? state)
  cases hrest : state.rest with
  | nil =>
    have := none state least most
    rw [hrest] at this
    exact this
  | cons t rest =>
    have := some t state (by rw [hrest]; exact Nat.succ_le_succ (Nat.zero_le _)) most
    rw [hrest] at this
    exact this

theorem peekingKind {f : Option Kind → Parse α} (none : Lasts 0 n k (f none))
    (some : ∀ kind, Lasts 1 n k (f (some kind))) : Lasts 0 n k (do f (← peekKind?)) :=
  peeking (f := fun t => f (t.map Token.kind)) none fun t => some t.kind

/-! ## 2. Single tokens

None of these steps needs fuel. -/

/-- Where there is a token, it is taken. -/
theorem advance : Lasts 1 n 1 Parse.advance := by
  intro state least most
  change state.rest.tail.length + 1 ≤ _
  rw [List.length_tail]
  omega

/-- If the next token is a given symbol, there is one. -/
theorem nextIs {symbol : Symbol} {f : Bool → Parse α} (yes : Lasts 1 n k (f true))
    (no : Lasts 0 n k (f false)) : Lasts 0 n k (do f (← Parse.nextIs symbol)) := by
  refine peeking (f := fun t => f (t.any (·.isSymbol symbol))) no fun t => ?_
  rw [Option.any_some]
  cases t.isSymbol symbol with
  | true => exact yes
  | false => exact no.nonempty

theorem atEnd : Lasts lo n 0 Parse.atEnd := fun _ _ _ => Nat.le_refl _

theorem freshId : Lasts lo n 0 Parse.freshId := fun _ _ _ => Nat.le_refl _

theorem record (error : SyntaxError) : Lasts lo n 0 (Parse.record error) :=
  fun _ _ _ => Nat.le_refl _

theorem recordHere (cause : SyntaxCause) : Lasts lo n 0 (Parse.recordHere cause) :=
  fun _ _ _ => Nat.le_refl _

theorem skip (symbol : Symbol) : Lasts 0 n 0 (Parse.skip symbol) := by
  refine .nextIs ?_ (.pure _)
  exact advance.followed fun _ _ => .pure _

/-- A reader that goes on behind `expect` has taken the mark. -/
theorem expect (place : Place) : Lasts 0 n 1 (Parse.expect place) := by
  refine .peeking (.failHere _) fun t => .ite ?_ (.failHere _)
  exact advance.andThen fun _ _ => .pure _

theorem expectName (role : NameRole) : Lasts 0 n 1 (Parse.expectName role) := by
  refine .peeking (.failHere _) fun t => ?_
  obtain ⟨kind, lexeme, line⟩ := t
  cases kind with
  | identifier => exact advance.andThen fun _ _ => .pure _
  | _ => exact .failHere _

/-- Readers that look for an operator first: if there is one, a token has been taken. -/
theorem operator? {level : Level} {f : Option (Operator × Nat) → Parse α}
    (none : Lasts 0 n k (f none))
    (some : 1 ≤ n → ∀ found, Lasts 0 (n - 1) 0 (f (some found))) (le : k ≤ 1) :
    Lasts 0 n k (do f (← Parse.operator? level)) := by
  unfold Parse.operator?
  rw [bind_assoc]
  refine .peeking none fun t => ?_
  dsimp only
  cases level.operator? t.kind with
  | none => exact none.nonempty
  | some op => exact (advance.andThen fun h _ => some h _).weaken le

/-- The same for unary operators, which are part of the phrase that they stand in front of. -/
theorem unaryOperator? {f : Option (UnaryOp × Nat) → Parse α} (none : Lasts 0 n k (f none))
    (some : 1 ≤ n → ∀ found, Lasts 0 (n - 1) 0 (f (some found))) (le : k ≤ 1) :
    Lasts 0 n k (do f (← Parse.unaryOperator?)) := by
  have taken : ∀ found, Lasts 1 n k (do Parse.advance; f (Option.some found)) := fun found =>
    (advance.andThen fun h _ => some h found).weaken le
  unfold Parse.unaryOperator?
  rw [bind_assoc]
  refine .peeking none fun ⟨kind, lexeme, line⟩ => ?_
  cases kind with
  | symbol symbol =>
    cases symbol with
    | bang => exact taken (.not, line)
    | minus => exact taken (.negate, line)
    | _ => exact none.nonempty
  | _ => exact none.nonempty

end Lasts

/-! ## 3. Expressions

The bound on the fuel is `16 * n` for `n` tokens, and what is added to it goes down from a reader to
those that it calls without having taken a token. -/

/-- With so much fuel no phrase of an expression runs out of it, as long as no more tokens are left
than the fuel is enough for. -/
structure LastsExpressions (fuel : Nat) : Prop where
  expression : ∀ n, 16 * n + 15 ≤ fuel → Lasts 0 n 1 (expression fuel)
  ladder : ∀ n level, 16 * n + 18 ≤ fuel + 2 * Level.tightness level →
    Lasts 0 n 1 (ladder fuel level)
  operand : ∀ n level, 16 * n + 17 ≤ fuel + 2 * Level.tightness level →
    Lasts 0 n 1 (operand fuel level)
  ladderRest : ∀ n level left, 16 * n + 1 ≤ fuel → Lasts 0 n 0 (ladderRest fuel level left)
  unary : ∀ n, 16 * n + 2 ≤ fuel → Lasts 0 n 1 (unary fuel)
  callRest : ∀ n callee, 16 * n + 1 ≤ fuel → Lasts 0 n 0 (callRest fuel callee)
  arguments : ∀ n count, 16 * n + 16 ≤ fuel → Lasts 0 n 1 (arguments fuel count)
  elements : ∀ n, 16 * n + 16 ≤ fuel → Lasts 0 n 1 (elements fuel)
  primary : ∀ n, 16 * n + 1 ≤ fuel → Lasts 0 n 1 (primary fuel)

namespace LastsExpressions

theorem zero : LastsExpressions 0 where
  expression n h := by omega
  ladder n level h := by have := level.tightness_le; omega
  operand n level h := by have := level.tightness_le; omega
  ladderRest n _ _ h := by omega
  unary n h := by omega
  callRest n _ h := by omega
  arguments n _ h := by omega
  elements n h := by omega
  primary n h := by omega

variable (ih : LastsExpressions fuel)

include ih

/-- Below an assignment its value is read with one unit of fuel less, and at least the sign has been
taken by then. -/
theorem expression_succ (h : 16 * n + 15 ≤ fuel + 1) :
    Lasts 0 n 1 (Parse.expression (fuel + 1)) := by
  have level : Level.or.tightness = 2 := rfl
  rw [Parse.expression]
  refine (ih.ladder n .or (by omega)).andThen fun hn target =>
    .peeking (.pure _) fun ⟨kind, lexeme, line⟩ => ?_
  cases kind with
  | symbol symbol =>
    cases symbol with
    | equal =>
      refine Lasts.advance.followed fun hn' _ => ?_
      refine (ih.expression _ (by omega)).followed fun _ value => ?_
      cases target with
      | «variable» v => exact .first .freshId fun _ => .pure _
      | get object property => exact .pure _
      | _ => exact .first (.record _) fun _ => .pure _
    | _ => exact .pure _
  | _ => exact .pure _

/-- Two units of fuel are used at each level, for the level and for its operand, and there are seven
levels. -/
theorem ladder_succ {level : Level} (h : 16 * n + 18 ≤ fuel + 1 + 2 * level.tightness) :
    Lasts 0 n 1 (Parse.ladder (fuel + 1) level) := by
  have tight := level.tightness_le
  rw [Parse.ladder]
  exact (ih.operand n level (by omega)).andThen fun hn left => ih.ladderRest _ _ _ (by omega)

theorem operand_succ {level : Level} (h : 16 * n + 17 ≤ fuel + 1 + 2 * level.tightness) :
    Lasts 0 n 1 (Parse.operand (fuel + 1) level) := by
  cases next : level.tighter? with
  | some tighter =>
    have tight := Level.tightness_tighter next
    rw [operand_of_tighter next]
    exact ih.ladder n tighter (by omega)
  | none =>
    have tight := Level.tightness_tightest next
    rw [operand_of_tightest next]
    exact ih.unary n (by omega)

/-- Behind an operator at least one token has been taken. -/
theorem ladderRest_succ (level : Level) (left : Expr) (h : 16 * n + 1 ≤ fuel + 1) :
    Lasts 0 n 0 (Parse.ladderRest (fuel + 1) level left) := by
  have tight := level.tightness_le
  rw [Parse.ladderRest]
  refine .operator? (.pure _) (fun hn found => ?_) (Nat.zero_le _)
  refine (ih.operand _ level (by omega)).followed fun hn' right => ?_
  exact ih.ladderRest _ _ _ (by omega)

/-- An operator in front is one token, and the operand is read behind it. -/
theorem unary_succ (h : 16 * n + 2 ≤ fuel + 1) : Lasts 0 n 1 (Parse.unary (fuel + 1)) := by
  rw [Parse.unary]
  refine .unaryOperator? ?_ (fun hn found => ?_) (Nat.le_refl 1)
  · exact (ih.primary n (by omega)).andThen fun hn callee => ih.callRest _ callee (by omega)
  · exact ((ih.unary _ (by omega)).map _).weaken (Nat.zero_le _)

/-- What follows a callee takes a token in each turn. -/
theorem callRest_succ (callee : Expr) (h : 16 * n + 1 ≤ fuel + 1) :
    Lasts 0 n 0 (Parse.callRest (fuel + 1) callee) := by
  rw [Parse.callRest]
  refine .peekingKind (.pure _) fun kind => ?_
  cases kind with
  | symbol symbol =>
    cases symbol with
    | leftParen =>
      refine Lasts.advance.followed fun hn _ => ?_
      have call : ∀ m ≤ n - 1, ∀ values, Lasts 0 m 0 (do
          let line ← expect .afterArguments
          Parse.callRest fuel (.call callee values line)) := fun m hm values =>
        (Lasts.expect _).followed fun _ line => ih.callRest _ _ (by omega)
      refine .nextIs (.nonempty (.first (.pure _) (call _ (Nat.le_refl _)))) ?_
      refine (ih.arguments _ 0 (by omega)).followed fun _ => ?_
      exact call _ (Nat.sub_le _ _)
    | dot =>
      refine Lasts.advance.followed fun hn _ => ?_
      refine (Lasts.expectName _).followed fun hn' property => ?_
      exact ih.callRest _ _ (by omega)
    | _ => exact .pure _
  | _ => exact .pure _

/-- Items take a token each, and another one for each comma. -/
theorem arguments_succ (count : Nat) (h : 16 * n + 16 ≤ fuel + 1) :
    Lasts 0 n 1 (Parse.arguments (fuel + 1) count) := by
  have values : Lasts 0 n 1 (do
      let value ← Parse.expression fuel
      if ← Parse.skip .comma then return value :: (← Parse.arguments fuel (count + 1))
      else return [value]) := by
    refine (ih.expression n (by omega)).andThen fun hn value => .first (.skip _) fun more => ?_
    refine .ite ?_ (.pure _)
    exact (ih.arguments _ _ (by omega)).followed fun _ _ => .pure _
  rw [Parse.arguments]
  exact .ite (.first (.recordHere _) fun _ => values) values

theorem elements_succ (h : 16 * n + 16 ≤ fuel + 1) :
    Lasts 0 n 1 (Parse.elements (fuel + 1)) := by
  rw [Parse.elements]
  refine (ih.expression n (by omega)).andThen fun hn value => .first (.skip _) fun more => ?_
  refine .ite ?_ (.pure _)
  exact (ih.elements _ (by omega)).followed fun _ _ => .pure _

/-- Within brackets, at least one token has been taken. -/
theorem primary_succ (h : 16 * n + 1 ≤ fuel + 1) : Lasts 0 n 1 (Parse.primary (fuel + 1)) := by
  rw [Parse.primary]
  refine .peeking (.failHere _) fun ⟨kind, lexeme, line⟩ => ?_
  cases kind with
  | keyword keyword =>
    cases keyword with
    | «false» | «true» | nil => exact Lasts.advance.andThen fun _ _ => .pure _
    | this => exact Lasts.advance.andThen fun _ _ => .first .freshId fun _ => .pure _
    | super =>
      refine Lasts.advance.andThen fun _ _ => ?_
      refine (Lasts.expect _).followed fun _ _ => ?_
      refine (Lasts.expectName _).followed fun _ _ => ?_
      exact .first .freshId fun _ => .pure _
    | _ => exact .failHere _
  | number | string => exact Lasts.advance.andThen fun _ _ => .pure _
  | identifier => exact Lasts.advance.andThen fun _ _ => .first .freshId fun _ => .pure _
  | symbol symbol =>
    cases symbol with
    | leftParen =>
      refine Lasts.advance.andThen fun hn _ => ?_
      refine (ih.expression _ (by omega)).followed fun _ inner => ?_
      exact (Lasts.expect _).followed fun _ _ => .pure _
    | leftBracket =>
      refine Lasts.advance.andThen fun hn _ => ?_
      have list : ∀ m values, Lasts 0 m 0 (do
          let _ ← expect .afterElements
          return Expr.list line values) := fun m values =>
        (Lasts.expect _).followed fun _ _ => .pure _
      refine .nextIs (.nonempty (.first (.pure _) (list _))) ?_
      exact (ih.elements _ (by omega)).followed fun _ => list _
    | _ => exact .failHere _

/-- All readers of expressions with one unit of fuel more. -/
theorem succ : LastsExpressions (fuel + 1) where
  expression _ := ih.expression_succ
  ladder _ _ := ih.ladder_succ
  operand _ _ := ih.operand_succ
  ladderRest _ := ih.ladderRest_succ
  unary _ := ih.unary_succ
  callRest _ := ih.callRest_succ
  arguments _ := ih.arguments_succ
  elements _ := ih.elements_succ
  primary _ := ih.primary_succ

end LastsExpressions

theorem lastsExpressions : ∀ fuel, LastsExpressions fuel
  | 0 => .zero
  | fuel + 1 => (lastsExpressions fuel).succ

/-! ## 4. Statements

As for expressions, with what is added chosen for the same reason. -/

/-- One unit of fuel for each parameter is enough. -/
theorem Lasts.parameters (count : Nat) (h : n + 1 ≤ fuel) :
    Lasts 0 n 1 (Parse.parameters fuel count) := by
  induction fuel generalizing n count with
  | zero => omega
  | succ fuel ih =>
    have names : Lasts 0 n 1 (do
        let name ← Parse.expectName .parameter
        if ← Parse.skip .comma then return name :: (← Parse.parameters fuel (count + 1))
        else return [name]) := by
      refine (Lasts.expectName _).andThen fun hn name => .first (.skip _) fun more => ?_
      refine .ite ?_ (.pure _)
      exact (ih _ (by omega)).followed fun _ _ => .pure _
    rw [Parse.parameters]
    exact .ite (.first (.recordHere _) fun _ => names) names

theorem Lasts.varDeclaration (h : 16 * n + 15 ≤ fuel) :
    Lasts 0 n 0 (Parse.varDeclaration fuel) := by
  have rest : ∀ m name initializer, Lasts 0 m 0 (do
      let _ ← Parse.expect .afterVariable
      return Stmt.varDecl name initializer) := fun m name initializer =>
    (Lasts.expect _).followed fun _ _ => .pure _
  refine (Lasts.expectName _).followed fun hn name => .first (.skip _) fun given => ?_
  refine .ite ?_ (.first (.pure _) (rest _ name))
  exact (((lastsExpressions fuel).expression _ (by omega)).map _).followed fun _ => rest _ name

theorem Lasts.expressionStatement (h : 16 * n + 15 ≤ fuel) :
    Lasts 0 n 1 (Parse.expressionStatement fuel) :=
  ((lastsExpressions fuel).expression n h).andThen fun _ _ =>
    (Lasts.expect _).followed fun _ _ => .pure _

/-- The same for the phrases of statements. -/
structure LastsStatements (fuel : Nat) : Prop where
  declaration : ∀ n, 16 * n + 17 ≤ fuel → Lasts 0 n 1 (declaration fuel)
  classDeclaration : ∀ n, 16 * n + 21 ≤ fuel → Lasts 0 n 0 (classDeclaration fuel)
  methods : ∀ n, 16 * n + 20 ≤ fuel → Lasts 0 n 0 (methods fuel)
  function : ∀ n kind, 16 * n + 19 ≤ fuel → Lasts 0 n 1 (function fuel kind)
  block : ∀ n, 16 * n + 18 ≤ fuel → Lasts 0 n 0 (block fuel)
  statement : ∀ n, 16 * n + 16 ≤ fuel → Lasts 0 n 1 (statement fuel)
  ifStatement : ∀ n, 16 * n + 1 ≤ fuel → Lasts 0 n 0 (ifStatement fuel)
  forStatement : ∀ n, 16 * n + 1 ≤ fuel → Lasts 0 n 0 (forStatement fuel)
  foreachStatement : ∀ n line, 16 * n + 1 ≤ fuel → Lasts 0 n 0 (foreachStatement fuel line)

namespace LastsStatements

theorem zero : LastsStatements 0 where
  declaration n h := by omega
  classDeclaration n h := by omega
  methods n h := by omega
  function n _ h := by omega
  block n h := by omega
  statement n h := by omega
  ifStatement n h := by omega
  forStatement n h := by omega
  foreachStatement n _ h := by omega

variable (ih : LastsStatements fuel)

include ih

/-- What follows a word has that token less. -/
theorem declaration_succ (h : 16 * n + 17 ≤ fuel + 1) :
    Lasts 0 n 1 (Parse.declaration (fuel + 1)) := by
  have other : Lasts 0 n 1 (Parse.statement fuel) := ih.statement n (by omega)
  rw [Parse.declaration]
  refine .peekingKind other fun kind => ?_
  cases kind with
  | keyword keyword =>
    cases keyword with
    | «class» => exact Lasts.advance.andThen fun hn _ => ih.classDeclaration _ (by omega)
    | «fun» =>
      refine Lasts.advance.andThen fun hn _ => ?_
      exact (ih.function _ _ (by omega)).followed fun _ _ => .pure _
    | var => exact Lasts.advance.andThen fun hn _ => .varDeclaration (by omega)
    | _ => exact other.nonempty
  | _ => exact other.nonempty

/-- The methods are read behind the opening brace. -/
theorem classDeclaration_succ (h : 16 * n + 21 ≤ fuel + 1) :
    Lasts 0 n 0 (Parse.classDeclaration (fuel + 1)) := by
  rw [Parse.classDeclaration]
  refine (Lasts.expectName _).followed fun hn name => .first (.skip _) fun extended => ?_
  have body : ∀ m ≤ n - 1, ∀ superclass, Lasts 0 m 0 (do
      let _ ← Parse.expect .beforeClassBody
      let methods ← Parse.methods fuel
      let _ ← Parse.expect .afterClassBody
      return Stmt.classDecl name superclass methods) := by
    intro m hm superclass
    refine (Lasts.expect _).followed fun hm' _ => ?_
    refine (ih.methods _ (by omega)).followed fun _ methods => ?_
    exact (Lasts.expect _).followed fun _ _ => .pure _
  refine .ite ?_ (.first (.pure _) (body _ (Nat.le_refl _)))
  refine (Lasts.expectName _).followed fun _ superName => .first .freshId fun id => ?_
  exact .first (.pure _) (body _ (Nat.sub_le _ _))

theorem methods_succ (h : 16 * n + 20 ≤ fuel + 1) :
    Lasts 0 n 0 (Parse.methods (fuel + 1)) := by
  rw [Parse.methods]
  refine .nextIs (.first .atEnd fun _ => .pure _) (.first .atEnd fun _ => .ite (.pure _) ?_)
  refine (ih.function n _ (by omega)).followed fun hn method => ?_
  exact (ih.methods _ (by omega)).followed fun _ _ => .pure _

theorem function_succ (kind : FunKind) (h : 16 * n + 19 ≤ fuel + 1) :
    Lasts 0 n 1 (Parse.function (fuel + 1) kind) := by
  rw [Parse.function]
  refine (Lasts.expectName _).andThen fun hn name => (Lasts.expect _).followed fun hn' _ => ?_
  have body : ∀ m ≤ n - 1, ∀ params, Lasts 0 m 0 (do
      let _ ← Parse.expect .afterParameters
      let _ ← Parse.expect (.beforeBody kind)
      return FunDecl.mk name params (← Parse.block fuel)) := by
    intro m hm params
    refine (Lasts.expect _).followed fun _ _ => (Lasts.expect _).followed fun _ _ => ?_
    exact (ih.block _ (by omega)).followed fun _ _ => .pure _
  refine .nextIs (.nonempty (.first (.pure _) (body _ (Nat.sub_le _ _)))) ?_
  exact (Lasts.parameters 0 (by omega)).followed fun _ => body _ (by omega)

theorem block_succ (h : 16 * n + 18 ≤ fuel + 1) : Lasts 0 n 0 (Parse.block (fuel + 1)) := by
  have close : Lasts 0 n 0 (do
      let _ ← Parse.expect .afterBlock
      return ([] : List Stmt)) := (Lasts.expect _).followed fun _ _ => .pure _
  rw [Parse.block]
  refine .nextIs (.first .atEnd fun _ => close) (.first .atEnd fun _ => .ite close ?_)
  refine (ih.declaration n (by omega)).followed fun hn first => ?_
  exact (ih.block _ (by omega)).followed fun _ _ => .pure _

/-- One case for each kind of statement. -/
theorem statement_succ (h : 16 * n + 16 ≤ fuel + 1) :
    Lasts 0 n 1 (Parse.statement (fuel + 1)) := by
  have other : Lasts 0 n 1 (Parse.expressionStatement fuel) := .expressionStatement (by omega)
  have expressions := lastsExpressions fuel
  rw [Parse.statement]
  refine .peeking other fun ⟨kind, lexeme, line⟩ => ?_
  cases kind with
  | keyword keyword =>
    cases keyword with
    | «if» => exact Lasts.advance.andThen fun hn _ => ih.ifStatement _ (by omega)
    | print =>
      refine Lasts.advance.andThen fun hn _ => ?_
      refine (expressions.expression _ (by omega)).followed fun _ value => ?_
      exact (Lasts.expect _).followed fun _ _ => .pure _
    | «return» =>
      refine Lasts.advance.andThen fun hn _ => ?_
      have close : ∀ m value, Lasts 0 m 0 (do
          let _ ← Parse.expect .afterReturn
          return Stmt.ret line value) := fun m value =>
        (Lasts.expect _).followed fun _ _ => .pure _
      refine .nextIs (.nonempty (.first (.pure _) (close _))) ?_
      exact ((expressions.expression _ (by omega)).map _).followed fun _ => close _
    | «while» =>
      refine Lasts.advance.andThen fun hn _ => (Lasts.expect _).followed fun hn' _ => ?_
      refine (expressions.expression _ (by omega)).followed fun _ condition => ?_
      refine (Lasts.expect _).followed fun _ _ => ?_
      exact (ih.statement _ (by omega)).followed fun _ _ => .pure _
    | «for» => exact Lasts.advance.andThen fun hn _ => ih.forStatement _ (by omega)
    | foreach => exact Lasts.advance.andThen fun hn _ => ih.foreachStatement _ _ (by omega)
    | _ => exact other.nonempty
  | symbol symbol =>
    cases symbol with
    | leftBrace =>
      refine Lasts.advance.andThen fun hn _ => ?_
      exact (ih.block _ (by omega)).followed fun _ _ => .pure _
    | _ => exact other.nonempty
  | _ => exact other.nonempty

theorem ifStatement_succ (h : 16 * n + 1 ≤ fuel + 1) :
    Lasts 0 n 0 (Parse.ifStatement (fuel + 1)) := by
  rw [Parse.ifStatement]
  refine (Lasts.expect _).followed fun hn _ => ?_
  refine ((lastsExpressions fuel).expression _ (by omega)).followed fun _ condition => ?_
  refine (Lasts.expect _).followed fun hn' _ => ?_
  refine (ih.statement _ (by omega)).followed fun _ branch => ?_
  refine .peekingKind (.pure _) fun kind => ?_
  cases kind with
  | keyword keyword =>
    cases keyword with
    | «else» =>
      refine Lasts.advance.followed fun _ _ => ?_
      exact (ih.statement _ (by omega)).followed fun _ _ => .pure _
    | _ => exact .pure _
  | _ => exact .pure _

/-- The clauses are expressions, and the body is read behind all of them. -/
theorem forStatement_succ (h : 16 * n + 1 ≤ fuel + 1) :
    Lasts 0 n 0 (Parse.forStatement (fuel + 1)) := by
  have expressions := lastsExpressions fuel
  have body : ∀ m < n, ∀ initializer condition increment, Lasts 0 m 0 (do
      let _ ← Parse.expect .afterForClauses
      return forLoop initializer condition increment (← Parse.statement fuel)) := by
    intro m hm initializer condition increment
    refine (Lasts.expect _).followed fun _ _ => ?_
    exact (ih.statement _ (by omega)).followed fun _ _ => .pure _
  have step : ∀ m < n, ∀ initializer condition, Lasts 0 m 0 (do
      let _ ← Parse.expect .afterLoopCondition
      let increment ← if ← Parse.nextIs .rightParen then pure none
        else some <$> Parse.expression fuel
      let _ ← Parse.expect .afterForClauses
      return forLoop initializer condition increment (← Parse.statement fuel)) := by
    intro m hm initializer condition
    refine (Lasts.expect _).followed fun _ _ => ?_
    refine .nextIs (.nonempty (.first (.pure _) (body _ (by omega) _ _))) ?_
    refine ((expressions.expression _ (by omega)).map _).followed fun _ => ?_
    exact body _ (by omega) _ _
  have test : ∀ m < n, ∀ initializer, Lasts 0 m 0 (do
      let condition ← if ← Parse.nextIs .semicolon then pure (.literal (.boolean true))
        else Parse.expression fuel
      let _ ← Parse.expect .afterLoopCondition
      let increment ← if ← Parse.nextIs .rightParen then pure none
        else some <$> Parse.expression fuel
      let _ ← Parse.expect .afterForClauses
      return forLoop initializer condition increment (← Parse.statement fuel)) := by
    intro m hm initializer
    refine .nextIs (.nonempty (.first (.pure _) (step _ hm _))) ?_
    exact (expressions.expression _ (by omega)).followed fun _ => step _ (by omega) _
  rw [Parse.forStatement]
  refine (Lasts.expect _).followed fun hn _ => ?_
  have start : Lasts 0 (n - 1) 0 (do
      let initializer ← some <$> Parse.expressionStatement fuel
      let condition ← if ← Parse.nextIs .semicolon then pure (.literal (.boolean true))
        else Parse.expression fuel
      let _ ← Parse.expect .afterLoopCondition
      let increment ← if ← Parse.nextIs .rightParen then pure none
        else some <$> Parse.expression fuel
      let _ ← Parse.expect .afterForClauses
      return forLoop initializer condition increment (← Parse.statement fuel)) :=
    ((Lasts.expressionStatement (by omega)).map _).followed fun _ => test _ (by omega)
  refine .peekingKind start fun kind => ?_
  cases kind with
  | symbol symbol =>
    cases symbol with
    | semicolon =>
      exact Lasts.advance.followed fun _ _ => .first (.pure _) (test _ (by omega))
    | _ => exact start.nonempty
  | keyword keyword =>
    cases keyword with
    | var =>
      refine Lasts.advance.followed fun _ _ => ?_
      exact ((Lasts.varDeclaration (by omega)).map _).followed fun _ => test _ (by omega)
    | _ => exact start.nonempty
  | _ => exact start.nonempty

theorem foreachStatement_succ (line : Nat) (h : 16 * n + 1 ≤ fuel + 1) :
    Lasts 0 n 0 (Parse.foreachStatement (fuel + 1) line) := by
  have loop : ∀ m < n, Lasts 0 m 0 (do
      let name ← Parse.expectName .loopVariable
      let _ ← Parse.expect .afterLoopVariable
      let iterable ← Parse.expression fuel
      let _ ← Parse.expect .afterForeachClauses
      return Stmt.forEach line name iterable (← Parse.statement fuel)) := by
    intro m hm
    refine (Lasts.expectName _).followed fun _ name => (Lasts.expect _).followed fun _ _ => ?_
    refine ((lastsExpressions fuel).expression _ (by omega)).followed fun _ iterable => ?_
    refine (Lasts.expect _).followed fun _ _ => ?_
    exact (ih.statement _ (by omega)).followed fun _ _ => .pure _
  rw [Parse.foreachStatement]
  refine (Lasts.expect _).followed fun hn _ => .peekingKind (loop _ (by omega)) fun kind => ?_
  cases kind with
  | keyword keyword =>
    cases keyword with
    | var => exact Lasts.advance.followed fun _ _ => loop _ (by omega)
    | _ => exact (loop _ (by omega)).nonempty
  | _ => exact (loop _ (by omega)).nonempty

/-- All readers of statements with one unit of fuel more. -/
theorem succ : LastsStatements (fuel + 1) where
  declaration _ := ih.declaration_succ
  classDeclaration _ := ih.classDeclaration_succ
  methods _ := ih.methods_succ
  function _ := ih.function_succ
  block _ := ih.block_succ
  statement _ := ih.statement_succ
  ifStatement _ := ih.ifStatement_succ
  forStatement _ := ih.forStatement_succ
  foreachStatement _ := ih.foreachStatement_succ

end LastsStatements

theorem lastsStatements : ∀ fuel, LastsStatements fuel
  | 0 => .zero
  | fuel + 1 => (lastsStatements fuel).succ

/-! ## 5. Programs

Each turn takes a token, so there are no more turns than tokens. -/

/-- Skipping to the next statement adds no tokens. -/
theorem length_resumeAfter (previous : Token) (tokens : List Token) :
    (resumeAfter previous tokens).length ≤ tokens.length := by
  induction tokens generalizing previous with
  | nil => exact Nat.le_refl _
  | cons token rest ih =>
    rw [resumeAfter]
    split
    · exact Nat.le_refl _
    · exact Nat.le_succ_of_le (ih token)

/-- Reading resumes with fewer tokens. -/
theorem length_resume (tokens : List Token) : (resume tokens).length ≤ tokens.length - 1 := by
  cases tokens with
  | nil => exact Nat.le_refl _
  | cons token rest => exact length_resumeAfter token rest

/-- An attempt at a declaration, and the rest behind it or behind its error. -/
theorem ends_attempt {x : Parse Stmt} {rest : Parse (List Stmt)} {turns : Nat} {state : ParseState}
    (hx : EndsWithin 1 state.rest.length (x state)) (most : state.rest.length ≤ turns + 1)
    (hrest : ∀ next : ParseState, next.rest.length ≤ turns →
      ∃ program end_, rest next = .ok program end_) :
    ∃ program end_, (fun state =>
      match x state with
      | .ok first state =>
        match rest state with
        | .ok rest state => .ok (first :: rest) state
        | .error stop state => .error stop state
      | .error (.error error) state =>
        rest { state with rest := resume state.rest, errors := state.errors ++ [error] }
      | .error .outOfFuel state => .error .outOfFuel state : Parse (List Stmt)) state =
        .ok program end_ := by
  dsimp only
  cases hs : x state with
  | ok first next =>
    rw [hs] at hx
    change next.rest.length + 1 ≤ _ at hx
    obtain ⟨program, end_, ends⟩ := hrest next (by omega)
    dsimp only
    rw [ends]
    exact ⟨first :: program, end_, rfl⟩
  | error stop next =>
    rw [hs] at hx
    cases stop with
    | outOfFuel => cases hx
    | error error =>
      change next.rest.length ≤ _ at hx
      have fewer := length_resume next.rest
      exact hrest _ (by change (resume next.rest).length ≤ turns; omega)

theorem atEnd_bind (f : Bool → Parse α) (state : ParseState) :
    (do f (← atEnd)) state = f state.rest.isEmpty state := rfl

/-- A program comes to an end within as many attempts as there are tokens. -/
theorem declarations_ends {turns : Nat} (h : 16 * turns + 17 ≤ fuel) (state : ParseState)
    (most : state.rest.length ≤ turns) :
    ∃ program end_, declarations fuel turns state = .ok program end_ := by
  induction turns generalizing state with
  | zero =>
    have ended : state.rest.isEmpty = true := List.isEmpty_iff_length_eq_zero.2 (by omega)
    refine ⟨[], state, ?_⟩
    rw [declarations, atEnd_bind, ended]
    rfl
  | succ turns ih =>
    have reads := (lastsStatements fuel).declaration (turns + 1) h state (Nat.zero_le _) most
    rw [declarations, atEnd_bind]
    cases state.rest.isEmpty with
    | true => exact ⟨[], state, rfl⟩
    | false => exact ends_attempt reads most (ih (by omega))

end Parse

/-- **Reading any text ends with a program or with errors.** -/
theorem parse_ends (stream : TokenStream) (firstId : Id) :
    (parse stream firstId).result ≠ .error .outOfFuel := by
  have enough : 16 * stream.tokens.length + 17 ≤ Parse.fuelFor stream.tokens.length := by
    unfold Parse.fuelFor
    omega
  obtain ⟨program, end_, ends⟩ := Parse.declarations_ends enough
    ⟨stream.tokens, stream.lastLine, firstId, []⟩ (Nat.le_refl _)
  unfold parse
  dsimp only
  rw [ends]
  dsimp only
  split <;> exact fun h => by cases h

end Lox
