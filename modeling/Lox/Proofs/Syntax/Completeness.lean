/-
# What is derived is read

On the tokens of a derivation the readers find the tree of the derivation, take its ids and stop at
its end, provided that the next token could not have gone on with the phrase: behind a phrase of
some level there must be a token that binds less tightly.

A chain of operators of one level is derived from its right end and read from its left one.  So what
is said of the derivation of a chain is where the reader stands after it, with the chain as the left
operand of what may still come (`Grammar.Ladder.reaches`); likewise for calls.

* §1 has one lemma for each step of a reader.
* §2 and §3 go through the derivations.
* §4 is the result for whole programs, `parse_of_declarations`.
-/
import Lox.Proofs.Syntax.Tables

namespace Lox

/-! ## 1. Readers

`Reaches` relates a reader at one spot to what is left of it at another.  A step is undone by the
lemma for it, and a phrase by the lemma for the phrase. -/

namespace Parse

open Grammar

/-- An operand of a level is read as a chain of the next tighter one, if there is one. -/
theorem operand_of_tighter {level level' : Level} (h : level.tighter? = some level')
    (fuel : Nat) : operand (fuel + 1) level = ladder fuel level' := by
  rw [operand, h]

/-- An operand of the tightest level is read as a unary expression. -/
theorem operand_of_tightest {level : Level} (h : level.tighter? = none) (fuel : Nat) :
    operand (fuel + 1) level = unary fuel := by
  rw [operand, h]

/-- A reader does from one spot on what another one does from another spot on. -/
def Reaches {α : Type} (a : Spot) (x : Parse α) (b : Spot) (y : Parse α) : Prop :=
  ∀ lastLine errors, x ⟨a.tokens, lastLine, a.nextId, errors⟩ =
    y ⟨b.tokens, lastLine, b.nextId, errors⟩

namespace Reaches

variable {α β : Type} {a b c : Spot} {x y z : Parse α}

theorem refl (a : Spot) (x : Parse α) : Reaches a x a x := fun _ _ => rfl

/-- Steps follow each other. -/
theorem trans (h : Reaches a x b y) (h' : Reaches b y c z) : Reaches a x c z :=
  fun lastLine errors => (h lastLine errors).trans (h' lastLine errors)

/-- What comes behind a reader comes behind what the reader does. -/
theorem bind (h : Reaches a x b y) (f : α → Parse β) : Reaches a (x >>= f) b (y >>= f) := by
  intro lastLine errors
  change EStateM.bind x f _ = EStateM.bind y f _
  rw [EStateM.bind, EStateM.bind, h lastLine errors]

/-- A phrase is read, and then what follows it. -/
theorem phrase {v : α} {f : α → Parse β} {y : Parse β} (h : Reaches a x b (pure v))
    (h' : Reaches b (f v) c y) : Reaches a (x >>= f) c y :=
  (h.bind f).trans h'

/-- What is made of a phrase comes behind it. -/
theorem map {v : α} (h : Reaches a x b (pure v)) (f : α → β) :
    Reaches a (f <$> x) b (pure (f v)) := by
  rw [← bind_pure_comp]
  exact h.phrase (refl _ _)

variable {y : Parse β}

theorem peek? {f : Option Token → Parse β} (h : Reaches a (f a.tokens.head?) b y) :
    Reaches a (Parse.peek? >>= f) b y := h

theorem peekKind? {f : Option Kind → Parse β} (h : Reaches a (f a.kind?) b y) :
    Reaches a (Parse.peekKind? >>= f) b y := h

theorem advance {f : Unit → Parse β} (h : Reaches ⟨a.tokens.tail, a.nextId⟩ (f ()) b y) :
    Reaches a (Parse.advance >>= f) b y := h

theorem freshId {f : Id → Parse β} (h : Reaches a.used (f a.nextId) b y) :
    Reaches a (Parse.freshId >>= f) b y := h

theorem atEnd {f : Bool → Parse β} (h : Reaches a (f a.tokens.isEmpty) b y) :
    Reaches a (Parse.atEnd >>= f) b y := h

/-- Two ways to say that a symbol is next. -/
theorem any_isSymbol (a : Spot) (symbol : Symbol) :
    a.tokens.head?.any (·.isSymbol symbol) = true ↔ a.kind? = some (.symbol symbol) := by
  obtain ⟨_ | ⟨⟨kind, lexeme, line⟩, rest⟩, id⟩ := a
  · exact ⟨(nomatch ·), (nomatch ·)⟩
  · cases kind with
    | symbol other => simp [Spot.kind?, Token.isSymbol]
    | _ => simp [Spot.kind?, Token.isSymbol]

theorem nextIs {symbol : Symbol} {f : Bool → Parse β} (next : a.kind? = some (.symbol symbol))
    (h : Reaches a (f true) b y) : Reaches a (Parse.nextIs symbol >>= f) b y := by
  have same : Reaches a (Parse.nextIs symbol >>= f) a
      (f (a.tokens.head?.any (·.isSymbol symbol))) := fun _ _ => rfl
  rw [(any_isSymbol a symbol).2 next] at same
  exact same.trans h

/-- The branch without the symbol is taken if the next token is another one. -/
theorem nextIs_not {symbol : Symbol} {f : Bool → Parse β}
    (next : a.kind? ≠ some (.symbol symbol)) (h : Reaches a (f false) b y) :
    Reaches a (Parse.nextIs symbol >>= f) b y := by
  have same : Reaches a (Parse.nextIs symbol >>= f) a
      (f (a.tokens.head?.any (·.isSymbol symbol))) := fun _ _ => rfl
  rw [Bool.eq_false_iff.2 fun found => next ((any_isSymbol a symbol).1 found)] at same
  exact same.trans h

/-- The mark is taken if it is there. -/
theorem skip {symbol : Symbol} {line : Nat} {f : Bool → Parse β} (mark : Mark symbol a line c)
    (h : Reaches c (f true) b y) : Reaches a (Parse.skip symbol >>= f) b y := by
  rw [Parse.skip, bind_assoc]
  refine nextIs mark.kind? ?_
  cases mark
  exact h

/-- Nothing is taken if it is not. -/
theorem skip_not {symbol : Symbol} {f : Bool → Parse β}
    (next : a.kind? ≠ some (.symbol symbol)) (h : Reaches a (f false) b y) :
    Reaches a (Parse.skip symbol >>= f) b y := by
  rw [Parse.skip, bind_assoc]
  exact nextIs_not next h

theorem expect {place : Place} {line : Nat} {f : Nat → Parse β}
    (mark : Mark place.mark a line c) (h : Reaches c (f line) b y) :
    Reaches a (Parse.expect place >>= f) b y := by
  generalize hsymbol : place.mark = symbol at mark
  cases mark with
  | mk =>
    rw [Parse.expect, bind_assoc]
    refine peek? ?_
    dsimp only [List.head?_cons]
    rw [if_pos (by simp only [Token.isSymbol, hsymbol, decide_true])]
    exact h

theorem expectName {role : NameRole} {name : Name} {f : Name → Parse β} (named : Named a name c)
    (h : Reaches c (f name) b y) : Reaches a (Parse.expectName role >>= f) b y := by
  cases named
  exact h

/-- An operator between operands of a level is taken where that level is read. -/
theorem operator? {level : Level} {op : Operator} {line : Nat}
    {f : Option (Operator × Nat) → Parse β} (sign : Between level a op line c)
    (h : Reaches c (f (some (op, line))) b y) : Reaches a (Parse.operator? level >>= f) b y := by
  cases sign with
  | mk stands =>
    rw [Parse.operator?, bind_assoc]
    refine peek? ?_
    dsimp only [List.head?_cons]
    rw [stands_iff.1 stands]
    exact h

/-- An operator of a level is not found where the next token binds less tightly. -/
theorem operator?_not {level : Level} {f : Option (Operator × Nat) → Parse β}
    (loose : a.tightness < level.tightness) (h : Reaches a (f none) b y) :
    Reaches a (Parse.operator? level >>= f) b y := by
  rw [Parse.operator?, bind_assoc]
  refine peek? ?_
  obtain ⟨_ | ⟨token, rest⟩, id⟩ := a
  · exact h
  dsimp only [List.head?_cons]
  cases hop : level.operator? token.kind with
  | none => exact h
  | some op =>
    have : Spot.tightness ⟨token :: rest, id⟩ = level.tightness := level.tightness_operator hop
    omega

theorem unaryOperator? {op : UnaryOp} {line : Nat} {f : Option (UnaryOp × Nat) → Parse β}
    (sign : Before a op line c) (h : Reaches c (f (some (op, line))) b y) :
    Reaches a (Parse.unaryOperator? >>= f) b y := by
  cases sign with
  | @mk token op rest id stands =>
    obtain ⟨kind, lexeme, line⟩ := token
    unfold unaryOp? at stands
    split at stands
    · rename_i same
      cases same
      cases stands
      exact h
    · rename_i same
      cases same
      cases stands
      exact h
    · cases stands

/-- No token that a primary expression begins with is an operator in front of one. -/
theorem unaryOperator?_not {f : Option (UnaryOp × Nat) → Parse β}
    (next : ∃ kind ∈ a.kind?, opensPrimary kind = true) (h : Reaches a (f none) b y) :
    Reaches a (Parse.unaryOperator? >>= f) b y := by
  rw [Parse.unaryOperator?, bind_assoc]
  refine peek? ?_
  obtain ⟨kind, next, primary⟩ := next
  split
  · obtain ⟨_ | ⟨token, rest⟩, id⟩ := a <;> cases ‹List.head? _ = some _›
    cases next
    cases primary
  · obtain ⟨_ | ⟨token, rest⟩, id⟩ := a <;> cases ‹List.head? _ = some _›
    cases next
    cases primary
  · exact h

end Reaches

end Parse

/-! ## 2. Expressions

The fuel is a multiple of the tokens, so that there is enough for what comes behind a phrase as
well. -/

namespace Grammar

open Parse

/-- Behind an expression that ends a chain of operators comes nothing of the chain. -/
theorem reaches_ladderRest {level : Level} {b : Spot} (e : Expr)
    (loose : b.tightness < level.tightness) {fuel : Nat} (enough : 1 ≤ fuel) :
    Reaches b (ladderRest fuel level e) b (pure e) := by
  obtain ⟨fuel, rfl⟩ : ∃ more, fuel = more + 1 := ⟨fuel - 1, by omega⟩
  exact .operator?_not loose (.refl _ _)

/-- Behind a call there is no other one if the next token binds no tighter than operators do. -/
theorem reaches_callRest {b : Spot} (e : Expr) (loose : b.tightness ≤ 7) {fuel : Nat}
    (enough : 1 ≤ fuel) : Reaches b (callRest fuel e) b (pure e) := by
  obtain ⟨fuel, rfl⟩ : ∃ more, fuel = more + 1 := ⟨fuel - 1, by omega⟩
  refine .peekKind? ?_
  split
  · rename_i next
    rw [Spot.tightness_of_kind? next] at loose
    exact absurd loose (by decide)
  · rename_i next
    rw [Spot.tightness_of_kind? next] at loose
    exact absurd loose (by decide)
  · exact .refl _ _

/-- What a call gives is a unary expression. -/
theorem reaches_unary {a b : Spot} {e : Expr} (first : ∃ kind ∈ a.kind?, opensPrimary kind = true)
    (shorter : b.size < a.size) (loose : b.tightness ≤ 7)
    (h : ∀ fuel, 32 * a.size ≤ fuel → ∃ fuel', fuel + b.size ≤ fuel' + a.size ∧
      Reaches a (primary fuel >>= callRest fuel) b (callRest fuel' e))
    {fuel : Nat} (enough : 32 * a.size + 1 ≤ fuel) : Reaches a (unary fuel) b (pure e) := by
  obtain ⟨fuel, rfl⟩ : ∃ more, fuel = more + 1 := ⟨fuel - 1, by omega⟩
  obtain ⟨fuel', le, h⟩ := h fuel (by omega)
  exact .unaryOperator?_not first (h.trans (reaches_callRest _ loose (by omega)))

/-- A name behind a dot, with what it is behind. -/
theorem reaches_get {a b c d : Spot} {e : Expr} {name : Name} {line : Nat}
    (h : ∀ fuel, 32 * a.size ≤ fuel → ∃ fuel', fuel + b.size ≤ fuel' + a.size ∧
      Reaches a (primary fuel >>= callRest fuel) b (callRest fuel' e))
    (shorter : b.size < a.size) (dot : Mark .dot b line c) (property : Named c name d) (fuel : Nat)
    (enough : 32 * a.size ≤ fuel) : ∃ fuel', fuel + d.size ≤ fuel' + a.size ∧
      Reaches a (primary fuel >>= callRest fuel) d (callRest fuel' (.get e name)) := by
  have h1 := dot.extent
  have h2 := property.extent
  obtain ⟨fuel', le, h⟩ := h fuel enough
  obtain ⟨fuel', rfl⟩ : ∃ more, fuel' = more + 1 := ⟨fuel' - 1, by omega⟩
  refine ⟨fuel', by omega, h.trans (.peekKind? ?_)⟩
  rw [dot.kind?]
  cases dot with
  | mk => exact .advance (.expectName property (.refl _ _))

/-- A variable is read where its name stands. -/
theorem reaches_named {a b : Spot} {name : Name} (of : Named a name b) {fuel : Nat}
    (enough : 1 ≤ fuel) :
    Reaches a (primary fuel) b.used (pure (.variable ⟨b.nextId, name⟩)) := by
  obtain ⟨fuel, rfl⟩ : ∃ more, fuel = more + 1 := ⟨fuel - 1, by omega⟩
  cases of with
  | mk => exact .peek? (.advance (.freshId (.refl _ _)))

/-- A name is a unary expression. -/
theorem reaches_name {a b : Spot} {name : Name} (of : Named a name b)
    (loose : b.used.tightness ≤ 7) (fuel : Nat) (enough : 32 * a.size + 1 ≤ fuel) :
    Reaches a (unary fuel) b.used (pure (.variable ⟨b.nextId, name⟩)) := by
  have h1 := of.extent
  have h2 := b.size_used
  exact reaches_unary ⟨_, of.kind?, rfl⟩ (by omega) loose
    (fun fuel enough => ⟨fuel, by omega, (reaches_named of (by omega)).phrase (.refl _ _)⟩) enough

/-- A unary expression is one of every level, if no operator of a level comes behind it. -/
theorem reaches_ladder {a b : Spot} {e : Expr}
    (h : ∀ fuel, 32 * a.size + 1 ≤ fuel → Reaches a (unary fuel) b (pure e))
    (loose : b.tightness < 2) (level : Level) {fuel : Nat}
    (enough : 32 * a.size + 17 ≤ fuel + 2 * level.tightness) :
    Reaches a (ladder fuel level) b (pure e) := by
  have bounds := level.tightness_le
  obtain ⟨fuel, rfl⟩ : ∃ more, fuel = more + 2 := ⟨fuel - 2, by omega⟩
  have operand : Reaches a (operand (fuel + 1) level) b (pure e) := by
    cases next : level.tighter? with
    | none =>
      have tight := Level.tightness_tightest next
      rw [operand_of_tightest next]
      exact h fuel (by omega)
    | some level' =>
      have tight := Level.tightness_tighter next
      rw [operand_of_tighter next]
      exact reaches_ladder h loose level' (by omega)
  exact operand.phrase (reaches_ladderRest e (by omega) (by omega))
termination_by 7 - level.tightness
decreasing_by
  have := level'.tightness_le
  omega

mutual

/-- An expression is read as an assignment if a sign follows its target, and as a chain of the
loosest level otherwise. -/
theorem Expression.reaches {a b : Spot} {e : Expr} :
    Expression a e b → ∀ fuel, 32 * a.size + 14 ≤ fuel → b.tightness = 0 →
      Reaches a (expression fuel) b (pure e)
  | .ladder of, fuel, enough, loose => by
    obtain ⟨fuel, rfl⟩ : ∃ more, fuel = more + 1 := ⟨fuel - 1, by omega⟩
    have level : Level.or.tightness = 2 := rfl
    have shorter := of.extent
    obtain ⟨fuel', le, h⟩ := of.reaches fuel (by omega) (by omega)
    refine .phrase (h.trans (reaches_ladderRest e (by omega) (by omega))) (.peek? ?_)
    split
    · rename_i next
      have next : b.kind? = some (.symbol .equal) := congrArg (Option.map Token.kind) next
      rw [Spot.tightness_of_kind? next] at loose
      cases loose
    · exact .refl _ _
  | .assign target equal value, fuel, enough, loose => by
    obtain ⟨fuel, rfl⟩ : ∃ more, fuel = more + 1 := ⟨fuel - 1, by omega⟩
    have h1 := target.extent
    have h2 := equal.extent
    have loose' := Spot.tightness_of_kind? equal.kind?
    rw [Spot.size_used] at h2
    have level : Level.or.tightness = 2 := rfl
    have rest := value.reaches fuel (by omega) loose
    have name := reaches_ladder (reaches_name target (by rw [loose']; decide))
      (by rw [loose']; decide) .or (show _ ≤ fuel + _ by omega)
    refine name.phrase (.peek? ?_)
    rename_i mid _ _ _ _ _
    obtain ⟨tokens, id⟩ := mid
    cases equal with
    | mk => exact .advance (rest.phrase (.freshId (.refl _ _)))
  | .set object dot property equal value, fuel, enough, loose => by
    obtain ⟨fuel, rfl⟩ : ∃ more, fuel = more + 1 := ⟨fuel - 1, by omega⟩
    have h0 := object.extent
    have h1 := dot.extent
    have h2 := property.extent
    have h3 := equal.extent
    have loose' := Spot.tightness_of_kind? equal.kind?
    have level : Level.or.tightness = 2 := rfl
    have rest := value.reaches fuel (by omega) loose
    have got := reaches_get object.reaches h0.1 dot property
    have target := reaches_ladder (fun fuel enough => reaches_unary object.opens (by omega)
      (by rw [loose']; decide) got enough) (by rw [loose']; decide) .or
      (show _ ≤ fuel + _ by omega)
    refine target.phrase (.peek? ?_)
    cases equal with
    | mk => exact .advance (rest.phrase (.refl _ _))

/-- The reader stands behind a chain with the chain as the left operand, and with enough fuel for
the rest.  By induction on the derivation, from its right end. -/
theorem Ladder.reaches {level : Level} {a b : Spot} {e : Expr} :
    Ladder level a e b → ∀ fuel, 32 * a.size + 17 ≤ fuel + 2 * level.tightness →
      b.tightness ≤ level.tightness →
      ∃ fuel', fuel + b.size ≤ fuel' + 1 + a.size ∧
        Reaches a (ladder fuel level) b (ladderRest fuel' level e)
  | .operand of, fuel, enough, loose => by
    have := level.tightness_le
    obtain ⟨fuel, rfl⟩ : ∃ more, fuel = more + 1 := ⟨fuel - 1, by omega⟩
    have shorter := of.extent
    exact ⟨fuel, by omega, (of.reaches fuel (by omega) loose).phrase (.refl _ _)⟩
  | .join left operator right, fuel, enough, loose => by
    have := level.tightness_le
    have h1 := left.extent
    have h2 := operator.extent
    have h3 := right.extent
    obtain ⟨fuel', le, h⟩ := left.reaches fuel enough (Nat.le_of_eq operator.tightness)
    obtain ⟨fuel', rfl⟩ : ∃ more, fuel' = more + 1 := ⟨fuel' - 1, by omega⟩
    refine ⟨fuel', by omega, h.trans (.operator? operator ?_)⟩
    rw [joined_eq]
    exact (right.reaches fuel' (by omega) loose).phrase (.refl _ _)

/-- An operand is a chain of the next level, or a unary expression. -/
theorem Operand.reaches {level : Level} {a b : Spot} {e : Expr} :
    Operand level a e b → ∀ fuel, 32 * a.size + 16 ≤ fuel + 2 * level.tightness →
      b.tightness ≤ level.tightness → Reaches a (operand fuel level) b (pure e)
  | .ladder tighter of, fuel, enough, loose => by
    have := level.tightness_le
    have tighter := tighter_iff.1 tighter
    have next := Level.tightness_tighter tighter
    have shorter := of.extent
    obtain ⟨fuel, rfl⟩ : ∃ more, fuel = more + 1 := ⟨fuel - 1, by omega⟩
    obtain ⟨fuel', le, h⟩ := of.reaches fuel (by omega) (by omega)
    rw [operand_of_tighter tighter]
    exact h.trans (reaches_ladderRest _ (by omega) (by omega))
  | .unary of, fuel, enough, loose => by
    have tightest : Level.product.tighter? = none := rfl
    have tight := Level.tightness_tightest tightest
    obtain ⟨fuel, rfl⟩ : ∃ more, fuel = more + 1 := ⟨fuel - 1, by omega⟩
    rw [operand_of_tightest tightest]
    exact of.reaches fuel (by omega) (by omega)

theorem Unary.reaches {a b : Spot} {e : Expr} :
    Unary a e b → ∀ fuel, 32 * a.size + 1 ≤ fuel → b.tightness ≤ 7 →
      Reaches a (unary fuel) b (pure e)
  | .op operator operand, fuel, enough, loose => by
    obtain ⟨fuel, rfl⟩ : ∃ more, fuel = more + 1 := ⟨fuel - 1, by omega⟩
    have shorter := operator.extent
    exact .unaryOperator? operator
      ((operand.reaches fuel (by omega) loose).phrase (.refl _ _))
  | .call of, fuel, enough, loose => by
    exact reaches_unary of.opens of.extent.1 loose of.reaches enough

/-- As for chains: the reader stands behind a call with the call as the callee of what may
follow. -/
theorem Call.reaches {a b : Spot} {e : Expr} :
    Call a e b → ∀ fuel, 32 * a.size ≤ fuel →
      ∃ fuel', fuel + b.size ≤ fuel' + a.size ∧
        Reaches a (primary fuel >>= callRest fuel) b (callRest fuel' e)
  | .primary of, fuel, enough => by
    have shorter := of.extent
    exact ⟨fuel, by omega, (of.reaches fuel enough).phrase (.refl _ _)⟩
  | .call callee left arguments few right, fuel, enough => by
    have h1 := callee.extent
    have h2 := left.extent
    have h3 := arguments.extent
    have h4 := right.extent
    obtain ⟨fuel', le, h⟩ := callee.reaches fuel enough
    obtain ⟨fuel', rfl⟩ : ∃ more, fuel' = more + 1 := ⟨fuel' - 1, by omega⟩
    refine ⟨fuel', by omega, h.trans (.peekKind? ?_)⟩
    rw [left.kind?]
    have given := arguments.reaches (Spot.tightness_of_kind? right.kind?)
      (by rw [right.kind?]; simp) fuel' (by omega)
    cases left with
    | mk =>
      refine .advance ?_
      rcases given with ⟨rfl, rfl⟩ | ⟨first, -, h'⟩
      · exact .nextIs right.kind? (.expect right (.refl _ _))
      · exact .nextIs_not (ne_of_begins first rfl)
          ((h' 0 (by rwa [Nat.zero_add])).phrase (.expect right (.refl _ _)))
  | .get object dot property, fuel, enough => by
    exact reaches_get object.reaches object.extent.1 dot property fuel enough

/-- One case for each kind of primary expression. -/
theorem Primary.reaches {a b : Spot} {e : Expr} :
    Primary a e b → ∀ fuel, 32 * a.size ≤ fuel → Reaches a (primary fuel) b (pure e)
  | .literal of, fuel, enough => by
    have h1 := of.extent
    obtain ⟨fuel, rfl⟩ : ∃ more, fuel = more + 1 := ⟨fuel - 1, by omega⟩
    cases of with
    | @mk token value rest id stands =>
      obtain ⟨kind, lexeme, line⟩ := token
      unfold literal? at stands
      split at stands <;> cases stands <;> cases ‹kind = _›
      all_goals exact .peek? (.advance (.refl _ _))
  | .named of, fuel, enough => by
    have h1 := of.extent
    exact reaches_named of (by omega)
  | .this word, fuel, enough => by
    have h1 := word.extent
    obtain ⟨fuel, rfl⟩ : ∃ more, fuel = more + 1 := ⟨fuel - 1, by omega⟩
    cases word with
    | mk => exact .peek? (.advance (.freshId (.refl _ _)))
  | .super word dot method, fuel, enough => by
    have h1 := word.extent
    obtain ⟨fuel, rfl⟩ : ∃ more, fuel = more + 1 := ⟨fuel - 1, by omega⟩
    cases word with
    | mk => exact .peek? (.advance (.expect dot (.expectName method (.freshId (.refl _ _)))))
  | .grouping left inner right, fuel, enough => by
    have h1 := left.extent
    have loose := Spot.tightness_of_kind? right.kind?
    obtain ⟨fuel, rfl⟩ : ∃ more, fuel = more + 1 := ⟨fuel - 1, by omega⟩
    have h := inner.reaches fuel (by omega) loose
    cases left with
    | mk => exact .peek? (.advance (h.phrase (.expect right (.refl _ _))))
  | .list left elements right, fuel, enough => by
    have h1 := left.extent
    obtain ⟨fuel, rfl⟩ : ∃ more, fuel = more + 1 := ⟨fuel - 1, by omega⟩
    have given := elements.reaches (Spot.tightness_of_kind? right.kind?)
      (by rw [right.kind?]; simp) fuel (by omega)
    cases left with
    | mk =>
      refine .peek? (.advance ?_)
      rcases given with ⟨rfl, rfl⟩ | ⟨first, h, -⟩
      · exact .nextIs right.kind? (.expect right (.refl _ _))
      · exact .nextIs_not (ne_of_begins first rfl) (h.phrase (.expect right (.refl _ _)))

/-- A series is empty, or it is read by the reader of items. -/
theorem Series.reaches {a b : Spot} {es : List Expr} :
    Series a es b → b.tightness = 0 → b.kind? ≠ some (.symbol .comma) → ∀ fuel,
      32 * a.size + 15 ≤ fuel → es = [] ∧ a = b ∨
        (∃ kind ∈ a.kind?, opens kind) ∧ Reaches a (elements fuel) b (pure es) ∧
        ∀ count, count + es.length ≤ 255 → Reaches a (arguments fuel count) b (pure es)
  | .none, _, _, _, _ => .inl ⟨rfl, rfl⟩
  | .some of, loose, next, fuel, enough => .inr ⟨of.opens, of.reaches loose next fuel enough⟩

/-- Items are read up to where no comma follows.  The reader of arguments counts them, and the
grammar allows no more than it. -/
theorem Items.reaches {a b : Spot} {es : List Expr} :
    Items a es b → b.tightness = 0 → b.kind? ≠ some (.symbol .comma) → ∀ fuel,
      32 * a.size + 15 ≤ fuel → Reaches a (elements fuel) b (pure es) ∧
        ∀ count, count + es.length ≤ 255 → Reaches a (arguments fuel count) b (pure es)
  | .last item, loose, next, fuel, enough => by
    obtain ⟨fuel, rfl⟩ : ∃ more, fuel = more + 1 := ⟨fuel - 1, by omega⟩
    have h := item.reaches fuel (by omega) loose
    refine ⟨h.phrase (.skip_not next (.refl _ _)), fun count few => ?_⟩
    unfold arguments
    rw [maxArguments_eq, if_neg (Nat.not_le_of_lt few)]
    exact h.phrase (.skip_not next (.refl _ _))
  | .more item comma rest, loose, next, fuel, enough => by
    obtain ⟨fuel, rfl⟩ : ∃ more, fuel = more + 1 := ⟨fuel - 1, by omega⟩
    have h1 := item.extent
    have h2 := comma.extent
    have h := item.reaches fuel (by omega) (Spot.tightness_of_kind? comma.kind?)
    obtain ⟨h', h''⟩ := rest.reaches loose next fuel (by omega)
    refine ⟨h.phrase (.skip comma (h'.phrase (.refl _ _))), fun count few => ?_⟩
    rw [List.length_cons] at few
    unfold arguments
    rw [maxArguments_eq, if_neg (by omega)]
    exact h.phrase (.skip comma ((h'' (count + 1) (by omega)).phrase (.refl _ _)))

end

/-! ## 3. Statements

The cases with several parts have lemmas of their own, stated for parts of which it is known that
they are read. -/

theorem Names.kind? {a b : Spot} {names : List Name} : Names a names b →
    a.kind? = some .identifier
  | .last item => item.kind?
  | .more item _ _ => item.kind?

/-- Parameters are read up to where no comma follows. -/
theorem Names.reaches {a b : Spot} {names : List Name} (h : Names a names b)
    (next : b.kind? ≠ some (.symbol .comma)) {count : Nat}
    (few : count + names.length ≤ 255) {fuel : Nat} (enough : a.size ≤ fuel) :
    Reaches a (parameters fuel count) b (pure names) := by
  induction h generalizing count fuel with
  | last item =>
    have := item.extent
    obtain ⟨fuel, rfl⟩ : ∃ more, fuel = more + 1 := ⟨fuel - 1, by omega⟩
    unfold parameters
    rw [maxArguments_eq, if_neg (Nat.not_le_of_lt few)]
    exact .expectName item (.skip_not next (.refl _ _))
  | more item comma rest ih =>
    have := item.extent
    have := comma.extent
    obtain ⟨fuel, rfl⟩ : ∃ more, fuel = more + 1 := ⟨fuel - 1, by omega⟩
    rw [List.length_cons] at few
    unfold parameters
    rw [maxArguments_eq, if_neg (by omega)]
    exact .expectName item (.skip comma ((ih next (by omega) (by omega)).phrase (.refl _ _)))

/-- What follows the word `var`. -/
theorem Var.reaches {a b : Spot} {s : Stmt} : Var a s b →
    ∃ line c, Word .var a line c ∧ ∀ fuel, 32 * c.size ≤ fuel →
      Reaches c (varDeclaration fuel) b (pure s)
  | .mk word of initial semicolon => by
    refine ⟨_, _, word, fun fuel enough => .expectName of ?_⟩
    have h1 := of.extent
    cases initial with
    | none => exact .skip_not (by rw [semicolon.kind?]; simp) (.expect semicolon (.refl _ _))
    | some equal value =>
      have h2 := equal.extent
      have h := value.reaches fuel (by omega) (Spot.tightness_of_kind? semicolon.kind?)
      exact .skip equal ((h.map some).phrase (.expect semicolon (.refl _ _)))

theorem Evaluation.reaches {a b : Spot} {s : Stmt} : Evaluation a s b →
    ∀ fuel, 32 * a.size + 14 ≤ fuel → Reaches a (expressionStatement fuel) b (pure s)
  | .mk value semicolon, fuel, enough =>
    (value.reaches fuel enough (Spot.tightness_of_kind? semicolon.kind?)).phrase
      (.expect semicolon (.refl _ _))

/-- An `if` after its keyword, once its branch can be read and no `else` is behind it. -/
theorem reaches_ifThen {b c d f g : Spot} {line line' : Nat} {e : Expr} {s : Stmt}
    (left : Mark .leftParen b line c) (condition : Expression c e d)
    (right : Mark .rightParen d line' f) {fuel : Nat} (enough : 32 * b.size ≤ fuel)
    (branch : Reaches f (statement fuel) g (pure s)) (next : g.kind? ≠ some (.keyword .else)) :
    Reaches b (ifStatement (fuel + 1)) g (pure (.ifElse e s none)) := by
  have h1 := left.extent
  have test := condition.reaches fuel (by omega) (Spot.tightness_of_kind? right.kind?)
  refine .expect left (test.phrase (.expect right (branch.phrase (.peekKind? ?_))))
  split
  · exact absurd ‹_› next
  · exact .refl _ _

/-- An `if` with an `else`, once both branches can be read. -/
theorem reaches_ifElse {b c d f g h i : Spot} {line line' line'' : Nat} {e : Expr} {s s' : Stmt}
    (left : Mark .leftParen b line c) (condition : Expression c e d)
    (right : Mark .rightParen d line' f) (otherwise : Word .else g line'' h) {fuel : Nat}
    (enough : 32 * b.size ≤ fuel) (branch : Reaches f (statement fuel) g (pure s))
    (branch' : Reaches h (statement fuel) i (pure s')) :
    Reaches b (ifStatement (fuel + 1)) i (pure (.ifElse e s (some s'))) := by
  have h1 := left.extent
  have test := condition.reaches fuel (by omega) (Spot.tightness_of_kind? right.kind?)
  refine .expect left (test.phrase (.expect right (branch.phrase (.peekKind? ?_))))
  rw [otherwise.kind?]
  cases otherwise with
  | mk => exact .advance (branch'.phrase (.refl _ _))

/-- A `for` loop after its keyword, once its body can be read. -/
theorem reaches_forStatement {b c d f g h i j : Spot} {line line' line'' : Nat}
    {first : Option Stmt} {e : Expr} {step : Option Expr} {s : Stmt}
    (left : Mark .leftParen b line c) (initializer : First c first d) (condition : Test d e f)
    (semicolon : Mark .semicolon f line' g) (increment : Optional g step h)
    (right : Mark .rightParen h line'' i) {fuel : Nat} (enough : 32 * b.size ≤ fuel)
    (body : Reaches i (statement fuel) j (pure s)) :
    Reaches b (forStatement (fuel + 1)) j (pure (loop first e step s)) := by
  rw [loop_eq]
  have h1 := left.extent
  have h2 := initializer.extent
  have h3 := condition.extent
  have h4 := semicolon.extent
  refine .expect left ?_
  have afterIncrement : Reaches g (do
      let increment ← if ← Parse.nextIs .rightParen then pure none
        else some <$> Parse.expression fuel
      let _ ← Parse.expect .afterForClauses
      return forLoop first e increment (← Parse.statement fuel)) j
        (pure (forLoop first e step s)) := by
    cases increment with
    | none => exact .nextIs right.kind? (.expect right (body.phrase (.refl _ _)))
    | some of =>
      have h := of.reaches fuel (by omega) (Spot.tightness_of_kind? right.kind?)
      exact .nextIs_not (ne_of_begins of.opens rfl)
        ((h.map some).phrase (.expect right (body.phrase (.refl _ _))))
  have afterInitializer : Reaches d (do
      let condition ← if ← Parse.nextIs .semicolon then pure (.literal (.boolean true))
        else Parse.expression fuel
      let _ ← Parse.expect .afterLoopCondition
      let increment ← if ← Parse.nextIs .rightParen then pure none
        else some <$> Parse.expression fuel
      let _ ← Parse.expect .afterForClauses
      return forLoop first condition increment (← Parse.statement fuel)) j
        (pure (forLoop first e step s)) := by
    cases condition with
    | none => exact .nextIs semicolon.kind? (.expect semicolon afterIncrement)
    | some of =>
      have h := of.reaches fuel (by omega) (Spot.tightness_of_kind? semicolon.kind?)
      exact .nextIs_not (ne_of_begins of.opens rfl)
        (h.phrase (.expect semicolon afterIncrement))
  refine .peekKind? ?_
  cases initializer with
  | none semicolon =>
    rw [semicolon.kind?]
    cases semicolon with
    | mk => exact .advance afterInitializer
  | varDecl of =>
    obtain ⟨line, c', word, h⟩ := of.reaches
    have h5 := word.extent
    have h := h fuel (by omega)
    rw [word.kind?]
    cases word with
    | mk => exact .advance ((h.map some).phrase afterInitializer)
  | expression of =>
    have h := of.reaches fuel (by omega)
    have next := of.opens
    split
    · exact absurd ‹_› (ne_of_begins next rfl)
    · exact absurd ‹_› (ne_of_begins next rfl)
    · exact (h.map some).phrase afterInitializer

/-- A `foreach` loop after its keyword, once its body can be read. -/
theorem reaches_foreachStatement {b c d f g h i j : Spot} {line line' line'' line''' : Nat}
    {name : Name} {e : Expr} {s : Stmt} (left : Mark .leftParen b line' c)
    (declared : OptionalVar c d) (item : Named d name f) (semicolon : Mark .semicolon f line'' g)
    (iterable : Expression g e h) (right : Mark .rightParen h line''' i) {fuel : Nat}
    (enough : 32 * b.size ≤ fuel) (body : Reaches i (statement fuel) j (pure s)) :
    Reaches b (foreachStatement (fuel + 1) line) j (pure (.forEach line name e s)) := by
  have h1 := left.extent
  have h2 := declared.extent
  have h3 := item.extent
  have h4 := semicolon.extent
  have h := iterable.reaches fuel (by omega) (Spot.tightness_of_kind? right.kind?)
  have rest : Reaches d (do
      let name ← Parse.expectName .loopVariable
      let _ ← Parse.expect .afterLoopVariable
      let iterable ← Parse.expression fuel
      let _ ← Parse.expect .afterForeachClauses
      return Stmt.forEach line name iterable (← Parse.statement fuel)) j
        (pure (Stmt.forEach line name e s)) :=
    .expectName item (.expect semicolon (h.phrase (.expect right (body.phrase (.refl _ _)))))
  refine .expect left (.peekKind? ?_)
  cases declared with
  | none =>
    rw [item.kind?]
    exact rest
  | some word =>
    rw [word.kind?]
    cases word with
    | mk => exact .advance rest

/-- A function from its name on, once its body can be read. -/
theorem reaches_function {a b c d f g h : Spot} {line line' line'' : Nat} {name : Name}
    {params : List Name} {body : List Stmt} (of : Named a name b) (left : Mark .leftParen b line c)
    (parameters : Parameters c params d) (right : Mark .rightParen d line' f)
    (brace : Mark .leftBrace f line'' g) {fuel : Nat} (enough : a.size ≤ fuel)
    (block : Reaches g (block fuel) h (pure body)) (kind : FunKind) :
    Reaches a (function (fuel + 1) kind) h (pure ⟨name, params, body⟩) := by
  have h1 := of.extent
  have h2 := left.extent
  refine .expectName of (.expect left ?_)
  cases parameters with
  | none => exact .nextIs right.kind? (.expect right (.expect brace (block.phrase (.refl _ _))))
  | some of few =>
    refine .nextIs_not (by rw [of.kind?]; simp) ?_
    exact (of.reaches (by rw [right.kind?]; simp) (by omega) (by omega)).phrase
      (.expect right (.expect brace (block.phrase (.refl _ _))))

/-- A class after its keyword, once its methods can be read. -/
theorem reaches_classDeclaration {b c d f g h : Spot} {line line' : Nat} {name : Name}
    {superclass : Option Variable} {methods : List FunDecl} (of : Named b name c)
    (extended : Superclass c superclass d) (left : Mark .leftBrace d line f)
    (right : Mark .rightBrace g line' h) {fuel : Nat}
    (body : Reaches f (Parse.methods fuel) g (pure methods)) :
    Reaches b (classDeclaration (fuel + 1)) h (pure (.classDecl name superclass methods)) := by
  refine .expectName of ?_
  have rest : Reaches d (do
      let _ ← Parse.expect .beforeClassBody
      let methods ← Parse.methods fuel
      let _ ← Parse.expect .afterClassBody
      return Stmt.classDecl name superclass methods) h
        (pure (Stmt.classDecl name superclass methods)) :=
    .expect left (body.phrase (.expect right (.refl _ _)))
  cases extended with
  | none => exact .skip_not (by rw [left.kind?]; simp) rest
  | some less of => exact .skip less (.expectName of (.freshId rest))

theorem Function.kind? {a b : Spot} {declaration : FunDecl} (h : Function a declaration b) :
    a.kind? = some .identifier := by
  cases h with
  | mk of => exact of.kind?

/-- Where there is a next token, the reader is not at the end. -/
theorem isEmpty_of_kind? {a : Spot} {kind : Kind} (h : a.kind? = some kind) :
    a.tokens.isEmpty = false := by
  obtain ⟨_ | ⟨token, rest⟩, id⟩ := a
  · cases h
  · rfl

/-- In front of what ends declarations, or of a declaration, there is no `else`. -/
theorem Declarations.no_else {a b : Spot} {body : List Stmt} (h : Declarations a body b)
    (next : b.kind? ≠ some (.keyword .else)) : a.kind? ≠ some (.keyword .else) := by
  cases h with
  | none => exact next
  | more first _ => exact ne_of_begins first.begins rfl

mutual

/-- A declaration is recognized by its first token. -/
theorem Declaration.reaches {a b : Spot} {s : Stmt} :
    Declaration a s b → ∀ fuel, 32 * a.size + 17 ≤ fuel → b.kind? ≠ some (.keyword .else) →
      Reaches a (declaration fuel) b (pure s)
  | .classDecl word of extended left body right, fuel, enough, next => by
    obtain ⟨fuel, rfl⟩ : ∃ more, fuel = more + 2 := ⟨fuel - 2, by omega⟩
    have h1 := word.extent
    have h2 := of.extent
    have h3 := extended.extent
    have h4 := left.extent
    have h := reaches_classDeclaration of extended left right
      (body.reaches right.kind? fuel (by omega))
    refine .peekKind? ?_
    rw [word.kind?]
    cases word with
    | mk => exact .advance h
  | .funDecl word of, fuel, enough, next => by
    obtain ⟨fuel, rfl⟩ : ∃ more, fuel = more + 1 := ⟨fuel - 1, by omega⟩
    have h1 := word.extent
    have h := of.reaches fuel (by omega) .function
    refine .peekKind? ?_
    rw [word.kind?]
    cases word with
    | mk => exact .advance (h.phrase (.refl _ _))
  | .varDecl of, fuel, enough, next => by
    obtain ⟨fuel, rfl⟩ : ∃ more, fuel = more + 1 := ⟨fuel - 1, by omega⟩
    obtain ⟨line, c, word, h⟩ := of.reaches
    have h1 := word.extent
    have h := h fuel (by omega)
    refine .peekKind? ?_
    rw [word.kind?]
    cases word with
    | mk => exact .advance h
  | .statement of, fuel, enough, next => by
    obtain ⟨fuel, rfl⟩ : ∃ more, fuel = more + 1 := ⟨fuel - 1, by omega⟩
    have h := of.reaches fuel (by omega) fun _ => next
    have begins := of.begins
    refine .peekKind? ?_
    split
    · exact absurd ‹_› (ne_of_begins begins rfl)
    · exact absurd ‹_› (ne_of_begins begins rfl)
    · exact absurd ‹_› (ne_of_begins begins rfl)
    · exact h

/-- A block is read up to its closing brace. -/
theorem Declarations.reaches {a b : Spot} {body : List Stmt} :
    Declarations a body b → ∀ {c line}, Mark .rightBrace b line c → ∀ fuel,
      32 * a.size + 18 ≤ fuel → Reaches a (block fuel) c (pure body)
  | .none, c, line, right, fuel, enough => by
    obtain ⟨fuel, rfl⟩ : ∃ more, fuel = more + 1 := ⟨fuel - 1, by omega⟩
    exact .nextIs right.kind? (.atEnd (.expect right (.refl _ _)))
  | .more first rest, c, line, right, fuel, enough => by
    obtain ⟨fuel, rfl⟩ : ∃ more, fuel = more + 1 := ⟨fuel - 1, by omega⟩
    have h1 := first.extent
    have h := first.reaches fuel (by omega)
      (rest.no_else (by rw [right.kind?]; simp))
    have h' := rest.reaches right fuel (by omega)
    refine .nextIs_not (ne_of_begins first.begins rfl) (.atEnd ?_)
    obtain ⟨kind, next, -⟩ := first.begins
    rw [isEmpty_of_kind? next]
    exact h.phrase (h'.phrase (.refl _ _))

theorem Block.reaches {a b : Spot} {body : List Stmt} :
    Block a body b → ∃ line c, Mark .leftBrace a line c ∧ ∀ fuel, 32 * a.size ≤ fuel →
      Reaches c (block fuel) b (pure body)
  | .mk left of right => by
    have h1 := left.extent
    exact ⟨_, _, left, fun fuel enough => of.reaches right fuel (by omega)⟩

/-- A function is read from its name on, whatever it is called in errors. -/
theorem Function.reaches {a b : Spot} {declaration : FunDecl} :
    Function a declaration b → ∀ fuel, 32 * a.size ≤ fuel → ∀ kind,
      Reaches a (function fuel kind) b (pure declaration)
  | .mk of left parameters right block, fuel, enough, kind => by
    have h1 := of.extent
    have h2 := left.extent
    have h3 := parameters.extent
    have h4 := right.extent
    obtain ⟨fuel, rfl⟩ : ∃ more, fuel = more + 1 := ⟨fuel - 1, by omega⟩
    obtain ⟨line, c, brace, h⟩ := block.reaches
    exact reaches_function of left parameters right brace (by omega) (h fuel (by omega)) kind

/-- Methods are read up to the closing brace of the class. -/
theorem Methods.reaches {a b : Spot} {methods : List FunDecl} :
    Methods a methods b → b.kind? = some (.symbol .rightBrace) → ∀ fuel,
      32 * a.size + 1 ≤ fuel → Reaches a (Parse.methods fuel) b (pure methods)
  | .none, next, fuel, enough => by
    obtain ⟨fuel, rfl⟩ : ∃ more, fuel = more + 1 := ⟨fuel - 1, by omega⟩
    exact .nextIs next (.atEnd (.refl _ _))
  | .more first rest, next, fuel, enough => by
    obtain ⟨fuel, rfl⟩ : ∃ more, fuel = more + 1 := ⟨fuel - 1, by omega⟩
    have h1 := first.extent
    have h := first.reaches fuel (by omega) .method
    have h' := rest.reaches next fuel (by omega)
    refine .nextIs_not (by rw [first.kind?]; simp) (.atEnd ?_)
    rw [isEmpty_of_kind? first.kind?]
    exact h.phrase (h'.phrase (.refl _ _))

/-- One case for each kind of statement.  An open statement must not stand in front of an `else`,
which its last condition would take. -/
theorem Statement.reaches {closed : Bool} {a b : Spot} {s : Stmt} :
    Statement closed a s b → ∀ fuel, 32 * a.size + 16 ≤ fuel →
      (closed = false → b.kind? ≠ some (.keyword .else)) → Reaches a (statement fuel) b (pure s)
  | .ifThen word left condition right branch, fuel, enough, next => by
    obtain ⟨fuel, rfl⟩ : ∃ more, fuel = more + 2 := ⟨fuel - 2, by omega⟩
    have h1 := word.extent
    have h2 := extent_test word left condition right
    have h := branch.reaches fuel (by omega) next
    cases word with
    | mk => exact .peek? (.advance (reaches_ifThen left condition right (by omega) h (next rfl)))
  | .ifElse word left condition right branch otherwise branch', fuel, enough, next => by
    obtain ⟨fuel, rfl⟩ : ∃ more, fuel = more + 2 := ⟨fuel - 2, by omega⟩
    have h1 := word.extent
    have h2 := extent_test word left condition right
    have h3 := branch.extent
    have h4 := otherwise.extent
    have h := branch.reaches fuel (by omega) nofun
    have h' := branch'.reaches fuel (by omega) next
    cases word with
    | mk =>
      exact .peek? (.advance (reaches_ifElse left condition right otherwise (by omega) h h'))
  | .print word value semicolon, fuel, enough, next => by
    obtain ⟨fuel, rfl⟩ : ∃ more, fuel = more + 1 := ⟨fuel - 1, by omega⟩
    have h1 := word.extent
    have h := value.reaches fuel (by omega) (Spot.tightness_of_kind? semicolon.kind?)
    cases word with
    | mk => exact .peek? (.advance (h.phrase (.expect semicolon (.refl _ _))))
  | .ret word of semicolon, fuel, enough, next => by
    obtain ⟨fuel, rfl⟩ : ∃ more, fuel = more + 1 := ⟨fuel - 1, by omega⟩
    have h1 := word.extent
    cases word with
    | mk =>
      refine .peek? (.advance ?_)
      cases of with
      | none => exact .nextIs semicolon.kind? (.expect semicolon (.refl _ _))
      | some value =>
        have h := value.reaches fuel (by omega) (Spot.tightness_of_kind? semicolon.kind?)
        exact .nextIs_not (ne_of_begins value.opens rfl)
          ((h.map some).phrase (.expect semicolon (.refl _ _)))
  | .block of, fuel, enough, next => by
    obtain ⟨fuel, rfl⟩ : ∃ more, fuel = more + 1 := ⟨fuel - 1, by omega⟩
    obtain ⟨line, c, left, h⟩ := of.reaches
    have body := h fuel (by omega)
    cases left with
    | mk => exact .peek? (.advance (body.phrase (.refl _ _)))
  | .whileLoop word left condition right body, fuel, enough, next => by
    obtain ⟨fuel, rfl⟩ : ∃ more, fuel = more + 1 := ⟨fuel - 1, by omega⟩
    have h1 := word.extent
    have h2 := left.extent
    have h3 := extent_test word left condition right
    have test := condition.reaches fuel (by omega) (Spot.tightness_of_kind? right.kind?)
    have h := body.reaches fuel (by omega) next
    cases word with
    | mk =>
      exact .peek? (.advance (.expect left (test.phrase (.expect right (h.phrase (.refl _ _))))))
  | .forLoop word left initializer condition semicolon increment right body, fuel, enough,
    next => by
    obtain ⟨fuel, rfl⟩ : ∃ more, fuel = more + 2 := ⟨fuel - 2, by omega⟩
    have h1 := word.extent
    have h2 := extent_clauses word left initializer condition semicolon increment right
    have h := reaches_forStatement left initializer condition semicolon increment right
      (by omega) (body.reaches fuel (by omega) next)
    cases word with
    | mk => exact .peek? (.advance h)
  | .forEach word left declared item semicolon iterable right body, fuel, enough, next => by
    obtain ⟨fuel, rfl⟩ : ∃ more, fuel = more + 2 := ⟨fuel - 2, by omega⟩
    have h1 := word.extent
    have h2 := extent_items word left declared item semicolon iterable right
    have h := body.reaches fuel (by omega) next
    cases word with
    | mk =>
      exact .peek? (.advance
        (reaches_foreachStatement left declared item semicolon iterable right (by omega) h))
  | .evaluation of, fuel, enough, next => by
    obtain ⟨fuel, rfl⟩ : ∃ more, fuel = more + 1 := ⟨fuel - 1, by omega⟩
    have h := of.reaches fuel (by omega)
    have first := of.opens
    refine .peek? ?_
    split
    case h_8 => exact h
    all_goals
      rename_i next
      exact absurd (congrArg (Option.map Token.kind) next) (ne_of_begins first rfl)

end

end Grammar

/-! ## 4. Programs

A program ends where its tokens do, so nothing can go on with its last declaration. -/

namespace Grammar

open Parse

/-- An attempt at a declaration that succeeds, and the rest behind it. -/
theorem reaches_attempt {a b c : Spot} {x : Parse Stmt} {rest : Parse (List Stmt)} {s : Stmt}
    {program : List Stmt} (first : Reaches a x b (pure s))
    (later : Reaches b rest c (pure program)) :
    Reaches a (fun state =>
      match x state with
      | .ok first state =>
        match rest state with
        | .ok rest state => .ok (first :: rest) state
        | .error stop state => .error stop state
      | .error (.error error) state =>
        rest { state with rest := resume state.rest, errors := state.errors ++ [error] }
      | .error .outOfFuel state => .error .outOfFuel state) c (pure (s :: program)) := by
  intro lastLine errors
  dsimp only
  rw [first lastLine errors]
  change (match rest _ with | .ok .. => _ | .error .. => _) = _
  rw [later lastLine errors]
  rfl

/-- Reading a program takes a turn for each of its declarations. -/
theorem Declarations.reaches_end {a b : Spot} {program : List Stmt}
    (h : Declarations a program b) (last : b.tokens = []) {fuel turns : Nat}
    (enough : 32 * a.size + 17 ≤ fuel) (enough' : a.size ≤ turns) :
    Reaches a (declarations fuel turns) b (pure program) := by
  induction program generalizing a turns with
  | nil =>
    cases h
    have next : b.tokens.isEmpty = true := List.isEmpty_iff.2 last
    cases turns with
    | zero =>
      refine .atEnd ?_
      rw [next]
      exact .refl _ _
    | succ turns =>
      refine .atEnd ?_
      rw [next]
      exact .refl _ _
  | cons s program ih =>
    cases h with
    | more first rest =>
      have shorter := first.extent
      obtain ⟨turns, rfl⟩ : ∃ more, turns = more + 1 := ⟨turns - 1, by omega⟩
      obtain ⟨kind, next, -⟩ := first.begins
      have begin := first.reaches fuel enough (rest.no_else (by rw [Spot.kind?, last]; nofun))
      refine .atEnd ?_
      rw [isEmpty_of_kind? next]
      exact reaches_attempt begin (ih rest (by omega) (by omega))

end Grammar

/-- A program that the grammar derives from all of the tokens is read. -/
theorem parse_of_declarations {stream : TokenStream} {firstId id : Id} {program : List Stmt}
    (h : Grammar.Declarations ⟨stream.tokens, firstId⟩ program ⟨[], id⟩) :
    parse stream firstId = ⟨.ok program, id⟩ := by
  have enough : 32 * Spot.size ⟨stream.tokens, firstId⟩ + 17 ≤
      Parse.fuelFor stream.tokens.length := by
    simp only [Spot.size, Parse.fuelFor]
    omega
  have reads := h.reaches_end rfl enough (Nat.le_refl _) stream.lastLine []
  unfold parse
  dsimp only [Spot.size] at reads ⊢
  rw [reads]
  rfl

end Lox
