/-
# What is read is derived

A reader that ends without having recorded an error has gone from one spot to another, and what it
gives is a phrase of the grammar between them.  `Accepts` says so of a reader; and of every reader,
whether it gives a phrase or not, that it forgets no error.

* §1 has one lemma for each step of a reader.
* §2 and §3 go through the phrases, by induction on the fuel.
* §4 is the result for whole programs, `declarations_of_parse`.
-/
import Lox.Proofs.Syntax.Tables

namespace Lox

/-- Where a reader stands. -/
def ParseState.spot (state : ParseState) : Spot := ⟨state.rest, state.nextId⟩

/-- Whether an `else` is next. -/
def Spot.elseNext (a : Spot) : Bool :=
  match a.tokens with
  | ⟨.keyword .else, _, _⟩ :: _ => true
  | _ => false

namespace Parse

open Grammar

variable {α β : Type}

/-! ## 1. Readers

An error is never taken back.  So if there is none at the end there was none at any step, and what
each step has taken is what the grammar asks for. -/

/-- What a reader that starts at a spot has made if there is no error by the time it ends. -/
def Accepts (a : Spot) (x : Parse α) (made : α → Spot → Prop) : Prop :=
  ∀ state : ParseState, state.spot = a →
    match x state with
    | .ok phrase state' => state'.errors = [] → state.errors = [] ∧ made phrase state'.spot
    | .error _ state' => state'.errors = [] → state.errors = []

/-- A test of the next token that succeeds shows that there is one. -/
theorem tokens_of_any {a : Spot} {test : Token → Bool} (h : a.tokens.head?.any test = true) :
    ∃ token rest, a.tokens = token :: rest ∧ test token = true := by
  cases htokens : a.tokens with
  | nil =>
    rw [htokens] at h
    cases h
  | cons token rest =>
    rw [htokens] at h
    exact ⟨token, rest, rfl, h⟩

/-- A token with a symbol is the mark of that symbol. -/
theorem mark_of_isSymbol {symbol : Symbol} {a : Spot} {token : Token} {rest : List Token}
    (tokens : a.tokens = token :: rest) (is : token.isSymbol symbol = true) :
    Mark symbol a token.line ⟨a.tokens.tail, a.nextId⟩ := by
  obtain ⟨_, id⟩ := a
  obtain ⟨kind, lexeme, line⟩ := token
  subst tokens
  simp only [Token.isSymbol] at is
  split at is
  · obtain rfl := of_decide_eq_true is
    exact .mk
  · cases is

namespace Accepts

variable {a : Spot} {made : β → Spot → Prop} {f : α → Parse β}

theorem pure {phrase : β} (h : made phrase a) : Accepts a (Pure.pure phrase) made := by
  rintro state rfl clean
  exact ⟨clean, h⟩

/-- A reader that gives up has made nothing. -/
theorem throw (stop : ParseStop) : Accepts a (MonadExcept.throw stop : Parse β) made :=
  fun _ _ clean => clean

theorem failHere (cause : SyntaxCause) : Accepts a (Parse.failHere cause : Parse β) made :=
  fun _ _ clean => clean

/-- What has been made may be put in another form. -/
theorem imp {x : Parse β} {made' : β → Spot → Prop} (hx : Accepts a x made')
    (h : ∀ phrase b, made' phrase b → made phrase b) : Accepts a x made := by
  intro state hstate
  have hr := hx state hstate
  cases hs : x state with
  | error stop state' =>
    rw [hs] at hr
    exact hr
  | ok phrase state' =>
    rw [hs] at hr
    exact fun clean => ⟨(hr clean).1, h _ _ (hr clean).2⟩

/-- What the second of two readers makes may depend on what the first has made; that it forgets no
error may not. -/
theorem bind {x : Parse α} {first : α → Spot → Prop} (hx : Accepts a x first)
    (hf : ∀ phrase b, Accepts b (f phrase) fun phrase' c => first phrase b → made phrase' c) :
    Accepts a (x >>= f) made := by
  intro state hstate
  have h := hx state hstate
  change match EStateM.bind x f state with | .ok .. => _ | .error .. => _
  unfold EStateM.bind
  cases hs : x state with
  | error stop state' =>
    rw [hs] at h
    exact h
  | ok phrase state' =>
    rw [hs] at h
    have h' := hf phrase state'.spot state' rfl
    dsimp only
    cases hs' : f phrase state' with
    | error stop state'' =>
      rw [hs'] at h'
      exact fun clean => (h (h' clean)).1
    | ok phrase' state'' =>
      rw [hs'] at h'
      intro clean
      obtain ⟨clean', later⟩ := h' clean
      obtain ⟨clean'', now⟩ := h clean'
      exact ⟨clean'', later now⟩

/-- A phrase may be wrapped up once it is made. -/
theorem map {x : Parse α} {g : α → β} {first : α → Spot → Prop} (hx : Accepts a x first)
    (h : ∀ phrase b, first phrase b → made (g phrase) b) : Accepts a (g <$> x) made := by
  rw [← bind_pure_comp]
  exact hx.bind fun phrase b => .pure (h phrase b)

/-! The steps that read no phrase, each with what follows it. -/

/-- The reader sees the first token of the spot. -/
theorem peek? {f : Option Token → Parse β} (h : Accepts a (f a.tokens.head?) made) :
    Accepts a (Parse.peek? >>= f) made := by
  rintro state rfl
  exact h state rfl

theorem peekKind? {f : Option Kind → Parse β}
    (h : Accepts a (f (a.tokens.head?.map Token.kind)) made) :
    Accepts a (Parse.peekKind? >>= f) made := by
  rintro state rfl
  exact h state rfl

theorem nextIs {symbol : Symbol} {f : Bool → Parse β}
    (h : Accepts a (f (a.tokens.head?.any (·.isSymbol symbol))) made) :
    Accepts a (Parse.nextIs symbol >>= f) made := by
  rintro state rfl
  exact h state rfl

theorem atEnd {f : Bool → Parse β} (h : Accepts a (f a.tokens.isEmpty) made) :
    Accepts a (Parse.atEnd >>= f) made := by
  rintro state rfl
  exact h state rfl

/-- Taking a token goes to the spot behind it. -/
theorem advance {f : Unit → Parse β} (h : Accepts ⟨a.tokens.tail, a.nextId⟩ (f ()) made) :
    Accepts a (Parse.advance >>= f) made := by
  rintro state rfl
  exact h _ rfl

/-- Drawing an id goes to the spot with the next one. -/
theorem freshId {f : Id → Parse β} (h : Accepts a.used (f a.nextId) made) :
    Accepts a (Parse.freshId >>= f) made := by
  rintro state rfl
  exact h _ rfl

/-- After an error has been recorded anything may be made. -/
theorem record (error : SyntaxError) {f : Unit → Parse β} {made' : β → Spot → Prop}
    (h : Accepts a (f ()) made') : Accepts a (Parse.record error >>= f) made := by
  rintro state rfl
  have h' := h { state with errors := state.errors ++ [error] } rfl
  have recorded : state.errors ++ [error] ≠ [] :=
    List.append_ne_nil_of_right_ne_nil _ (List.cons_ne_nil _ _)
  change match f () { state with errors := state.errors ++ [error] } with
    | .ok .. => _ | .error .. => _
  cases hs : f () { state with errors := state.errors ++ [error] } with
  | error stop state' =>
    rw [hs] at h'
    exact fun clean => absurd (h' clean) recorded
  | ok phrase state' =>
    rw [hs] at h'
    exact fun clean => absurd (h' clean).1 recorded

/-- Behind an error there is nothing to be shown, whatever the reader goes on to make. -/
theorem recordHere {cause : SyntaxCause} {f : Unit → Parse β} {made' : β → Spot → Prop}
    (h : Accepts a (f ()) made') : Accepts a (Parse.recordHere cause >>= f) made := by
  rintro state rfl
  exact record (state.errorHere cause) h state rfl

/-- A step over a token that gives something. -/
theorem take {phrase : α} {f : α → Parse β}
    (h : Accepts ⟨a.tokens.tail, a.nextId⟩ (f phrase) made) :
    Accepts a ((do Parse.advance; return phrase) >>= f) made := by
  rintro state rfl
  exact h _ rfl

/-! A mark, a name or an operator; what is known of it is known at once. -/

/-- A symbol is taken if it is there, and both branches are to be accepted. -/
theorem skip {symbol : Symbol} {f : Bool → Parse β}
    (there : ∀ line b, Mark symbol a line b → Accepts b (f true) made)
    (absent : Accepts a (f false) made) : Accepts a (Parse.skip symbol >>= f) made := by
  rw [Parse.skip, bind_assoc]
  refine nextIs ?_
  split
  · rename_i found
    obtain ⟨token, rest, tokens, is⟩ := tokens_of_any found
    exact take (there token.line _ (mark_of_isSymbol tokens is))
  · exact absent

/-- Where a symbol must stand, its absence is an error. -/
theorem expect {place : Place} {f : Nat → Parse β}
    (h : ∀ line b, Mark place.mark a line b → Accepts b (f line) made) :
    Accepts a (Parse.expect place >>= f) made := by
  rw [Parse.expect, bind_assoc]
  refine peek? ?_
  rcases a with ⟨_ | ⟨token, rest⟩, id⟩
  · exact failHere _
  · dsimp only [List.head?_cons]
    split
    · exact take (h token.line _ (mark_of_isSymbol rfl ‹_›))
    · exact failHere _

/-- Where a name must stand, its absence is an error. -/
theorem expectName {role : NameRole} {f : Name → Parse β}
    (h : ∀ name b, Named a name b → Accepts b (f name) made) :
    Accepts a (Parse.expectName role >>= f) made := by
  rw [Parse.expectName, bind_assoc]
  refine peek? ?_
  rcases a with ⟨_ | ⟨⟨kind, lexeme, line⟩, rest⟩, id⟩
  · exact failHere _
  · cases kind
    case identifier => exact take (h _ _ .mk)
    all_goals exact failHere _

/-- An operator is taken if it is one of the level, so the grammar has it between the operands. -/
theorem operator? {level : Level} {f : Option (Operator × Nat) → Parse β}
    (there : ∀ op line b, Between level a op line b → Accepts b (f (some (op, line))) made)
    (absent : Accepts a (f none) made) : Accepts a (Parse.operator? level >>= f) made := by
  rw [Parse.operator?, bind_assoc]
  refine peek? ?_
  rcases a with ⟨_ | ⟨token, rest⟩, id⟩
  · exact absent
  · dsimp only [List.head?_cons]
    split
    · exact absent
    · exact take (there _ _ _ (.mk (stands_iff.2 ‹_›)))

theorem unaryOperator? {f : Option (UnaryOp × Nat) → Parse β}
    (there : ∀ op line b, Before a op line b → Accepts b (f (some (op, line))) made)
    (absent : Accepts a (f none) made) : Accepts a (Parse.unaryOperator? >>= f) made := by
  rw [Parse.unaryOperator?, bind_assoc]
  refine peek? ?_
  split
  · rcases a with ⟨_ | ⟨token, rest⟩, id⟩ <;> cases ‹List.head? _ = _›
    exact take (there _ _ _ (.mk rfl))
  · rcases a with ⟨_ | ⟨token, rest⟩, id⟩ <;> cases ‹List.head? _ = _›
    exact take (there _ _ _ (.mk rfl))
  · exact absent

end Accepts

/-! ## 2. Expressions

The readers of what follows an operand have the operand as an argument.  What they make is therefore
stated with the derivation of that operand as a hypothesis. -/

/-- What the readers of expressions make. -/
structure AcceptsExprs (fuel : Nat) : Prop where
  expression : ∀ a, Accepts a (expression fuel) (Expression a)
  ladder : ∀ level a, Accepts a (ladder fuel level) (Ladder level a)
  operand : ∀ level a, Accepts a (operand fuel level) (Operand level a)
  ladderRest : ∀ level left b, Accepts b (ladderRest fuel level left) fun e c =>
    ∀ a, Ladder level a left b → Ladder level a e c
  unary : ∀ a, Accepts a (unary fuel) (Unary a)
  callRest : ∀ callee b, Accepts b (callRest fuel callee) fun e c =>
    ∀ a, Call a callee b → Call a e c
  arguments : ∀ count a, Accepts a (arguments fuel count) fun es b =>
    Items a es b ∧ count + es.length ≤ 255
  elements : ∀ a, Accepts a (elements fuel) (Items a)
  primary : ∀ a, Accepts a (primary fuel) (Primary a)

namespace AcceptsExprs

/-- Without fuel a reader gives up. -/
theorem zero : AcceptsExprs 0 where
  expression _ := .throw _
  ladder _ _ := .throw _
  operand _ _ := .throw _
  ladderRest _ _ _ := .throw _
  unary _ := .throw _
  callRest _ _ := .throw _
  arguments _ _ := .throw _
  elements _ := .throw _
  primary _ := .throw _

variable {fuel : Nat} (ih : AcceptsExprs fuel)

include ih

/-- An assignment whose target is no variable or property is recorded as an error, so nothing is to
be shown of it. -/
theorem expression_succ (a : Spot) : Accepts a (Parse.expression (fuel + 1)) (Expression a) := by
  refine (ih.ladder .or a).bind fun target b => .peek? ?_
  split
  · rename_i equal line next
    obtain ⟨_ | ⟨token, rest⟩, id⟩ := b <;> cases next
    refine .advance ((ih.expression _).bind fun value d => ?_)
    split
    · refine .freshId (.pure fun of target_of => ?_)
      obtain ⟨c, name, named, rfl, same⟩ := target_of.named
      have equal : Mark .equal c.used line ⟨rest, id⟩ := same ▸ Mark.mk
      exact .assign named equal of
    · refine .pure fun of target_of => ?_
      obtain ⟨c, d, line, object, dot, named⟩ := target_of.property
      exact .set object dot named .mk of
    · exact .record _ (.pure trivial : Accepts d _ fun _ _ => True)
  · exact .pure .ladder

theorem ladder_succ (level : Level) (a : Spot) :
    Accepts a (Parse.ladder (fuel + 1) level) (Ladder level a) :=
  (ih.operand level a).bind fun left b => (ih.ladderRest level left b).imp fun _ _ later of =>
    later a (.operand of)

theorem operand_succ (level : Level) (a : Spot) :
    Accepts a (Parse.operand (fuel + 1) level) (Operand level a) := by
  unfold Parse.operand
  split
  · exact (ih.ladder _ a).imp fun _ _ => .ladder (tighter_iff.2 ‹_›)
  · rename_i tightest
    obtain rfl := Level.tighter?_eq_none.1 tightest
    exact (ih.unary a).imp fun _ _ => .unary

/-- What has been read up to here is the left operand of the next operator of the level. -/
theorem ladderRest_succ (level : Level) (left : Expr) (b : Spot) :
    Accepts b (Parse.ladderRest (fuel + 1) level left) fun e c =>
      ∀ a, Ladder level a left b → Ladder level a e c := by
  refine .operator? (fun op line c sign => ?_) (.pure fun _ of => of)
  refine (ih.operand level c).bind fun right d => ?_
  rw [← joined_eq]
  exact (ih.ladderRest level _ d).imp fun _ _ later right_of a of =>
    later a (.join of sign right_of)

theorem unary_succ (a : Spot) : Accepts a (Parse.unary (fuel + 1)) (Unary a) := by
  refine .unaryOperator? (fun op line b sign => ?_) ?_
  · exact (ih.unary b).bind fun operand c => .pure (.op sign)
  · exact (ih.primary a).bind fun callee b => (ih.callRest callee b).imp fun _ _ later of =>
      .call (later a (.primary of))

/-- What has been read up to here is what the next call or property is behind. -/
theorem callRest_succ (callee : Expr) (b : Spot) :
    Accepts b (Parse.callRest (fuel + 1) callee) fun e c =>
      ∀ a, Call a callee b → Call a e c := by
  refine .peekKind? ?_
  split
  · rename_i next
    obtain ⟨_ | ⟨⟨kind, lexeme, line⟩, rest⟩, id⟩ := b <;> cases next
    refine .advance (.nextIs ?_)
    have close : ∀ values d, Accepts d (do
        let line ← Parse.expect .afterArguments
        Parse.callRest fuel (.call callee values line)) fun e f =>
          Series ⟨rest, id⟩ values d ∧ values.length ≤ 255 →
          ∀ a, Call a callee ⟨⟨.symbol .leftParen, lexeme, line⟩ :: rest, id⟩ → Call a e f :=
      fun values d => .expect fun line' f right => (ih.callRest _ f).imp
        fun _ _ later series a of => later a (.call of .mk series.1 series.2 right)
    split
    · exact (close [] _).imp fun _ _ later => later ⟨.none, Nat.zero_le _⟩
    · exact (ih.arguments 0 _).bind fun values d => (close values d).imp
        fun _ _ later items => later ⟨.some items.1, Nat.zero_add values.length ▸ items.2⟩
  · rename_i next
    obtain ⟨_ | ⟨⟨kind, lexeme, line⟩, rest⟩, id⟩ := b <;> cases next
    exact .advance (.expectName fun property d named => (ih.callRest _ d).imp
      fun _ _ later a of => later a (.get of .mk named))
  · exact .pure fun _ of => of

/-- Reading on beyond the limit records an error, so without one there are at most 255 arguments. -/
theorem arguments_succ (count : Nat) (a : Spot) :
    Accepts a (Parse.arguments (fuel + 1) count) fun es b =>
      Items a es b ∧ count + es.length ≤ 255 := by
  have rest : Accepts a (do
      let value ← Parse.expression fuel
      if ← Parse.skip .comma then return value :: (← Parse.arguments fuel (count + 1))
      else return [value]) fun es b =>
        count < 255 → Items a es b ∧ count + es.length ≤ 255 := by
    refine (ih.expression a).bind fun value b => .skip (fun line c comma => ?_) ?_
    · refine (ih.arguments (count + 1) c).bind fun values d => .pure fun items of _ => ?_
      refine ⟨.more of comma items.1, ?_⟩
      have := items.2
      rw [List.length_cons]
      omega
    · exact .pure fun of lt => ⟨.last of, lt⟩
  unfold Parse.arguments
  rw [maxArguments_eq]
  split
  · exact .recordHere rest
  · exact rest.imp fun _ _ later => later (Nat.lt_of_not_le ‹_›)

theorem elements_succ (a : Spot) : Accepts a (Parse.elements (fuel + 1)) (Items a) := by
  refine (ih.expression a).bind fun value b => .skip (fun line c comma => ?_) ?_
  · exact (ih.elements c).bind fun values d => .pure fun items of => .more of comma items
  · exact .pure .last

/-- One case for each kind of token that a primary expression begins with. -/
theorem primary_succ (a : Spot) : Accepts a (Parse.primary (fuel + 1)) (Primary a) := by
  refine .peek? ?_
  obtain ⟨_ | ⟨⟨kind, lexeme, line⟩, rest⟩, id⟩ := a
  · exact .failHere _
  have literal : ∀ value : Literal, literal? kind = some value →
      Accepts ⟨⟨kind, lexeme, line⟩ :: rest, id⟩ (do Parse.advance; return .literal value)
        (Primary ⟨⟨kind, lexeme, line⟩ :: rest, id⟩) :=
    fun value stands => .advance (.pure (.literal (.mk stands)))
  dsimp only [List.head?_cons]
  split
  · exact literal _ rfl
  · exact literal _ rfl
  · exact literal _ rfl
  · exact literal _ rfl
  · exact literal _ rfl
  · exact .advance (.freshId (.pure (.named .mk)))
  · exact .advance (.freshId (.pure (.this .mk)))
  · exact .advance (.expect fun _ b dot => .expectName fun name c named =>
      .freshId (.pure (.super .mk dot named)))
  · exact .advance ((ih.expression _).bind fun inner b => .expect fun _ c right =>
      .pure fun of => .grouping .mk of right)
  · have close : ∀ values b, Accepts b (do
        let _ ← Parse.expect .afterElements
        return .list line values) fun e c =>
          Series ⟨rest, id⟩ values b →
            Primary ⟨⟨.symbol .leftBracket, lexeme, line⟩ :: rest, id⟩ e c :=
      fun values b => .expect fun line' c right => .pure fun series => .list .mk series right
    refine .advance (.nextIs ?_)
    split
    · exact (close [] _).imp fun _ _ later => later .none
    · exact (ih.elements _).bind fun values b => (close values b).imp fun _ _ later items =>
        later (.some items)
  · exact .failHere _

end AcceptsExprs

/-- All readers of expressions together, by induction on the fuel. -/
theorem acceptsExprs : ∀ fuel, AcceptsExprs fuel
  | 0 => .zero
  | fuel + 1 =>
    have ih := acceptsExprs fuel
    { expression := ih.expression_succ
      ladder := ih.ladder_succ
      operand := ih.operand_succ
      ladderRest := ih.ladderRest_succ
      unary := ih.unary_succ
      callRest := ih.callRest_succ
      arguments := ih.arguments_succ
      elements := ih.elements_succ
      primary := ih.primary_succ }

/-! ## 3. Statements

As for expressions.  Whether a statement is closed is seen from the token behind it. -/

theorem accepts_optional (fuel : Nat) (a : Spot) :
    Accepts a (some <$> expression fuel) (Optional a) :=
  ((acceptsExprs fuel).expression a).map fun _ _ => .some

/-- Parameters are limited like arguments. -/
theorem accepts_parameters : ∀ fuel count a, Accepts a (parameters fuel count) fun names b =>
    Names a names b ∧ count + names.length ≤ 255
  | 0, _, _ => .throw _
  | fuel + 1, count, a => by
    have rest : Accepts a (do
        let name ← expectName .parameter
        if ← Parse.skip .comma then return name :: (← parameters fuel (count + 1))
        else return [name]) fun names b =>
          count < 255 → Names a names b ∧ count + names.length ≤ 255 := by
      refine .expectName fun name b named => .skip (fun line c comma => ?_) ?_
      · refine (accepts_parameters fuel (count + 1) c).bind fun names d => .pure fun others _ => ?_
        refine ⟨.more named comma others.1, ?_⟩
        have := others.2
        rw [List.length_cons]
        omega
      · exact .pure fun lt => ⟨.last named, lt⟩
    unfold parameters
    rw [maxArguments_eq]
    split
    · exact .recordHere rest
    · exact rest.imp fun _ _ later => later (Nat.lt_of_not_le ‹_›)

/-- The reader begins behind the word `var`. -/
theorem accepts_varDeclaration (fuel : Nat) (b : Spot) :
    Accepts b (varDeclaration fuel) fun s c => ∀ a line, Word .var a line b → Var a s c := by
  refine .expectName fun name c named => .skip (fun line d equal => ?_) ?_
  · have initial : Accepts d (some <$> expression fuel) (Initial c) :=
      ((acceptsExprs fuel).expression d).map fun _ _ => .some equal
    exact initial.bind fun _ _ => .expect fun _ _ semicolon =>
      .pure fun initial a line word => .mk word named initial semicolon
  · exact .expect fun _ _ semicolon => .pure fun a line word => .mk word named .none semicolon

theorem accepts_expressionStatement (fuel : Nat) (a : Spot) :
    Accepts a (expressionStatement fuel) (Evaluation a) :=
  ((acceptsExprs fuel).expression a).bind fun _ _ => .expect fun _ _ semicolon =>
    .pure fun of => .mk of semicolon

/-- What the readers of statements make.  Those that come after a word make the phrase from that
word on; and a statement is made closed if it stands in front of an `else`. -/
structure AcceptsStmts (fuel : Nat) : Prop where
  declaration : ∀ a, Accepts a (declaration fuel) (Declaration a)
  classDeclaration : ∀ b, Accepts b (classDeclaration fuel) fun s c =>
    ∀ a line, Word .class a line b → Declaration a s c
  methods : ∀ a, Accepts a (methods fuel) (Methods a)
  function : ∀ kind a, Accepts a (function fuel kind) (Function a)
  block : ∀ b, Accepts b (block fuel) fun body d =>
    ∃ c line, Declarations b body c ∧ Mark .rightBrace c line d
  statement : ∀ a, Accepts a (statement fuel) fun s b => Statement b.elseNext a s b
  ifStatement : ∀ b, Accepts b (ifStatement fuel) fun s c =>
    ∀ a line, Word .if a line b → Statement c.elseNext a s c
  forStatement : ∀ b, Accepts b (forStatement fuel) fun s c =>
    ∀ a line, Word .for a line b → Statement c.elseNext a s c
  foreachStatement : ∀ line b, Accepts b (foreachStatement fuel line) fun s c =>
    ∀ a, Word .foreach a line b → Statement c.elseNext a s c

namespace AcceptsStmts

/-- Without fuel a reader gives up. -/
theorem zero : AcceptsStmts 0 where
  declaration _ := .throw _
  classDeclaration _ := .throw _
  methods _ := .throw _
  function _ _ := .throw _
  block _ := .throw _
  statement _ := .throw _
  ifStatement _ := .throw _
  forStatement _ := .throw _
  foreachStatement _ _ := .throw _

variable {fuel : Nat} (ih : AcceptsStmts fuel)

include ih

/-- A declaration begins with its word, and everything else is a statement. -/
theorem declaration_succ (a : Spot) :
    Accepts a (Parse.declaration (fuel + 1)) (Declaration a) := by
  refine .peekKind? ?_
  obtain ⟨_ | ⟨⟨kind, lexeme, line⟩, rest⟩, id⟩ := a
  · exact (ih.statement _).imp fun _ _ of => .statement of.relax
  dsimp only [List.head?_cons, Option.map_some]
  split
  · cases ‹some _ = some _›
    exact .advance ((ih.classDeclaration _).imp fun _ _ later => later _ line .mk)
  · cases ‹some _ = some _›
    exact .advance ((ih.function _ _).bind fun _ _ => .pure (.funDecl .mk))
  · cases ‹some _ = some _›
    exact .advance ((accepts_varDeclaration fuel _).imp fun _ _ later =>
      .varDecl (later _ line .mk))
  · exact (ih.statement _).imp fun _ _ of => .statement of.relax

/-- The reader begins behind the word `class`. -/
theorem classDeclaration_succ (b : Spot) :
    Accepts b (Parse.classDeclaration (fuel + 1)) fun s c =>
      ∀ a line, Word .class a line b → Declaration a s c := by
  refine .expectName fun name c named => ?_
  have body : ∀ superclass d, Accepts d (do
      let _ ← Parse.expect .beforeClassBody
      let methods ← Parse.methods fuel
      let _ ← Parse.expect .afterClassBody
      return .classDecl name superclass methods) fun s h =>
        Superclass c superclass d → ∀ a line, Word .class a line b → Declaration a s h :=
    fun superclass d => .expect fun _ f left => (ih.methods f).bind fun methods g =>
      .expect fun _ h right => .pure fun of extended a line word =>
        .classDecl word named extended left of right
  refine .skip (fun line d less => ?_) ?_
  · exact .expectName fun name f named => .freshId ((body _ _).imp fun _ _ later =>
      later (.some less named))
  · exact (body _ _).imp fun _ _ later => later .none

theorem methods_succ (a : Spot) : Accepts a (Parse.methods (fuel + 1)) (Methods a) := by
  refine .nextIs (.atEnd ?_)
  split
  · exact .pure .none
  · exact (ih.function _ a).bind fun method b => (ih.methods b).bind fun methods c =>
      .pure fun of first => .more first of

/-- The limit on parameters is checked where they are read. -/
theorem function_succ (kind : FunKind) (a : Spot) :
    Accepts a (Parse.function (fuel + 1) kind) (Function a) := by
  refine .expectName fun name b named => .expect fun _ c left => .nextIs ?_
  have body : ∀ params d, Accepts d (do
      let _ ← Parse.expect .afterParameters
      let _ ← Parse.expect (.beforeBody kind)
      return ⟨name, params, ← Parse.block fuel⟩) fun declaration h =>
        Parameters c params d → Function a declaration h := by
    refine fun params d => .expect fun _ f right => .expect fun _ g left' =>
      (ih.block g).bind fun body h => .pure fun of parameters => ?_
    obtain ⟨_, _, of, right'⟩ := of
    exact .mk named left parameters right (.mk left' of right')
  split
  · exact (body [] c).imp fun _ _ later => later .none
  · exact (accepts_parameters fuel 0 c).bind fun params d => (body params d).imp
      fun _ _ later names => later (.some names.1 (Nat.zero_add params.length ▸ names.2))

theorem block_succ (b : Spot) : Accepts b (Parse.block (fuel + 1)) fun body d =>
    ∃ c line, Declarations b body c ∧ Mark .rightBrace c line d := by
  refine .nextIs (.atEnd ?_)
  split
  · exact .expect fun _ _ right => .pure ⟨_, _, .none, right⟩
  · refine (ih.declaration b).bind fun first c => (ih.block c).bind fun rest d =>
      .pure fun of first_of => ?_
    obtain ⟨_, _, of, right⟩ := of
    exact ⟨_, _, .more first_of of, right⟩

/-- One case for each kind of statement, by its first token. -/
theorem statement_succ (a : Spot) :
    Accepts a (Parse.statement (fuel + 1)) fun s b => Statement b.elseNext a s b := by
  refine .peek? ?_
  split
  · obtain ⟨_ | ⟨token, rest⟩, id⟩ := a <;> cases ‹List.head? _ = some _›
    exact .advance ((ih.ifStatement _).imp fun _ _ later => later _ _ .mk)
  · obtain ⟨_ | ⟨token, rest⟩, id⟩ := a <;> cases ‹List.head? _ = some _›
    exact .advance (((acceptsExprs fuel).expression _).bind fun value b =>
      .expect fun _ c semicolon => .pure fun of => .print .mk of semicolon)
  · obtain ⟨_ | ⟨token, rest⟩, id⟩ := a <;> cases ‹List.head? _ = some _›
    rename_i lexeme line
    have close : ∀ value b, Accepts b (do
        let _ ← Parse.expect .afterReturn
        return .ret line value) fun s c => Optional ⟨rest, id⟩ value b →
          Statement c.elseNext ⟨⟨.keyword .return, lexeme, line⟩ :: rest, id⟩ s c :=
      fun value b => .expect fun _ c semicolon => .pure fun of => .ret .mk of semicolon
    refine .advance (.nextIs ?_)
    split
    · exact (close none _).imp fun _ _ later => later .none
    · exact (accepts_optional fuel _).bind close
  · obtain ⟨_ | ⟨token, rest⟩, id⟩ := a <;> cases ‹List.head? _ = some _›
    refine .advance ((ih.block _).bind fun body c => .pure fun of => ?_)
    obtain ⟨_, _, of, right⟩ := of
    exact .block (.mk .mk of right)
  · obtain ⟨_ | ⟨token, rest⟩, id⟩ := a <;> cases ‹List.head? _ = some _›
    exact .advance (.expect fun _ b left => ((acceptsExprs fuel).expression b).bind
      fun condition c => .expect fun _ d right => (ih.statement d).bind fun body f =>
        .pure fun body_of of => .whileLoop .mk left of right body_of)
  · obtain ⟨_ | ⟨token, rest⟩, id⟩ := a <;> cases ‹List.head? _ = some _›
    exact .advance ((ih.forStatement _).imp fun _ _ later => later _ _ .mk)
  · obtain ⟨_ | ⟨token, rest⟩, id⟩ := a <;> cases ‹List.head? _ = some _›
    exact .advance ((ih.foreachStatement _ _).imp fun _ _ later => later _ .mk)
  · exact (accepts_expressionStatement fuel a).imp fun _ _ => .evaluation

/-- If an `else` is next behind the first branch, it is taken.  So the first branch is a closed
statement just if the `else` belongs to this condition. -/
theorem ifStatement_succ (b : Spot) : Accepts b (Parse.ifStatement (fuel + 1)) fun s c =>
    ∀ a line, Word .if a line b → Statement c.elseNext a s c := by
  refine .expect fun _ c left => ((acceptsExprs fuel).expression c).bind fun condition d =>
    .expect fun _ f right => (ih.statement f).bind fun thenBranch g => .peekKind? ?_
  obtain ⟨_ | ⟨⟨kind, lexeme, line'⟩, rest⟩, id⟩ := g
  · exact .pure fun branch of a line word => .ifThen word left of right branch
  dsimp only [List.head?_cons, Option.map_some]
  split
  · cases ‹some _ = some _›
    exact .advance ((ih.statement _).bind fun elseBranch h =>
      .pure fun branch' branch of a line word =>
        .ifElse word left of right branch .mk branch')
  · rename_i other
    refine .pure fun branch of a line word => ?_
    have no : Spot.elseNext ⟨⟨kind, lexeme, line'⟩ :: rest, id⟩ = false := by
      unfold Spot.elseNext
      split
      · rename_i same
        cases same
        exact absurd rfl other
      · rfl
    rw [no] at branch ⊢
    exact .ifThen word left of right branch

/-- The clauses of the loop are read one after the other, and the tree is put together as the
grammar says. -/
theorem forStatement_succ (b : Spot) : Accepts b (Parse.forStatement (fuel + 1)) fun s c =>
    ∀ a line, Word .for a line b → Statement c.elseNext a s c := by
  refine .expect fun _ c left => ?_
  -- from the back to the front: what is read behind each of the clauses
  have afterIncrement : ∀ initializer condition increment h, Accepts h (do
      let _ ← Parse.expect .afterForClauses
      return forLoop initializer condition increment (← Parse.statement fuel)) fun s j =>
        ∀ g, Optional g increment h → ∀ f line, Mark .semicolon f line g →
          ∀ d, Test d condition f → First c initializer d →
          ∀ a line, Word .for a line b → Statement j.elseNext a s j :=
    fun initializer condition increment h => .expect fun _ i right =>
      (ih.statement i).bind fun body j => .pure
        fun of g step f line semicolon d test first a line word => by
          rw [← loop_eq]
          exact .forLoop word left first test semicolon step right of
  have afterCondition : ∀ initializer condition f, Accepts f (do
      let _ ← Parse.expect .afterLoopCondition
      let increment ← if ← Parse.nextIs .rightParen then pure none
        else some <$> Parse.expression fuel
      let _ ← Parse.expect .afterForClauses
      return forLoop initializer condition increment (← Parse.statement fuel)) fun s j =>
        ∀ d, Test d condition f → First c initializer d →
          ∀ a line, Word .for a line b → Statement j.elseNext a s j := by
    refine fun initializer condition f => .expect fun _ g semicolon => .nextIs ?_
    split
    · exact (afterIncrement _ _ none g).imp fun _ _ later d test first =>
        later g .none f _ semicolon d test first
    · exact (accepts_optional fuel g).bind fun increment h =>
        (afterIncrement _ _ increment h).imp fun _ _ later step d test first =>
          later g step f _ semicolon d test first
  have afterInitializer : ∀ initializer d, Accepts d (do
      let condition ← if ← Parse.nextIs .semicolon then pure (.literal (.boolean true))
        else Parse.expression fuel
      let _ ← Parse.expect .afterLoopCondition
      let increment ← if ← Parse.nextIs .rightParen then pure none
        else some <$> Parse.expression fuel
      let _ ← Parse.expect .afterForClauses
      return forLoop initializer condition increment (← Parse.statement fuel)) fun s j =>
        First c initializer d → ∀ a line, Word .for a line b → Statement j.elseNext a s j := by
    refine fun initializer d => .nextIs ?_
    split
    · exact (afterCondition _ _ d).imp fun _ _ later => later d .none
    · exact ((acceptsExprs fuel).expression d).bind fun condition f =>
        (afterCondition _ condition f).imp fun _ _ later test => later d (.some test)
  refine .peekKind? ?_
  split
  · obtain ⟨_ | ⟨⟨kind, lexeme, line⟩, rest⟩, id⟩ := c <;> cases ‹Option.map _ _ = some _›
    exact .advance ((afterInitializer none _).imp fun _ _ later => later (.none .mk))
  · obtain ⟨_ | ⟨⟨kind, lexeme, line⟩, rest⟩, id⟩ := c <;> cases ‹Option.map _ _ = some _›
    have declared : Accepts ⟨rest, id⟩ (some <$> varDeclaration fuel)
        (First ⟨⟨.keyword .var, lexeme, line⟩ :: rest, id⟩) :=
      (accepts_varDeclaration fuel _).map fun _ _ later => .varDecl (later _ _ .mk)
    exact .advance (declared.bind afterInitializer)
  · have evaluated : Accepts c (some <$> expressionStatement fuel) (First c) :=
      (accepts_expressionStatement fuel c).map fun _ _ => .expression
    exact evaluated.bind afterInitializer

/-- A `foreach` loop is closed if its body is. -/
theorem foreachStatement_succ (line : Nat) (b : Spot) :
    Accepts b (Parse.foreachStatement (fuel + 1) line) fun s c =>
      ∀ a, Word .foreach a line b → Statement c.elseNext a s c := by
  refine .expect fun _ c left => ?_
  have variable' : ∀ d, Accepts d (do
      let name ← Parse.expectName .loopVariable
      let _ ← Parse.expect .afterLoopVariable
      let iterable ← Parse.expression fuel
      let _ ← Parse.expect .afterForeachClauses
      return .forEach line name iterable (← Parse.statement fuel)) fun s j => OptionalVar c d →
        ∀ a, Word .foreach a line b → Statement j.elseNext a s j :=
    fun d => .expectName fun name f named => .expect fun _ g semicolon =>
      ((acceptsExprs fuel).expression g).bind fun iterable h => .expect fun _ i right =>
        (ih.statement i).bind fun body j => .pure fun of iterable_of declared a word =>
          .forEach word left declared named semicolon iterable_of right of
  refine .peekKind? ?_
  split
  · obtain ⟨_ | ⟨⟨kind, lexeme, line⟩, rest⟩, id⟩ := c <;> cases ‹Option.map _ _ = some _›
    exact .advance ((variable' _).imp fun _ _ later => later (.some .mk))
  · exact (variable' c).imp fun _ _ later => later .none

end AcceptsStmts

/-- All readers of statements together, by induction on the fuel. -/
theorem acceptsStmts : ∀ fuel, AcceptsStmts fuel
  | 0 => .zero
  | fuel + 1 =>
    have ih := acceptsStmts fuel
    { declaration := ih.declaration_succ
      classDeclaration := ih.classDeclaration_succ
      methods := ih.methods_succ
      function := ih.function_succ
      block := ih.block_succ
      statement := ih.statement_succ
      ifStatement := ih.ifStatement_succ
      forStatement := ih.forStatement_succ
      foreachStatement := ih.foreachStatement_succ }

/-! ## 4. Programs

A program is read in turns, and each turn that has ended without an error has made a declaration. -/

/-- An attempt at a declaration, and the rest behind it or behind its error. -/
theorem accepts_attempt {x : Parse Stmt} {rest : Parse (List Stmt)}
    (hx : ∀ a, Accepts a x (Declaration a))
    (hrest : ∀ a, Accepts a rest fun program b => Declarations a program b ∧ b.tokens = [])
    (a : Spot) :
    Accepts a (fun state =>
      match x state with
      | .ok first state =>
        match rest state with
        | .ok rest state => .ok (first :: rest) state
        | .error stop state => .error stop state
      | .error (.error error) state =>
        rest { state with rest := resume state.rest, errors := state.errors ++ [error] }
      | .error .outOfFuel state => .error .outOfFuel state)
      fun program b => Declarations a program b ∧ b.tokens = [] := by
  rintro state rfl
  have first := hx state.spot state rfl
  dsimp only
  cases hs : x state with
  | ok s state' =>
    rw [hs] at first
    have later := hrest state'.spot state' rfl
    dsimp only
    cases hlater : rest state' with
    | ok body state'' =>
      rw [hlater] at later
      intro clean
      obtain ⟨clean', rest_of, last⟩ := later clean
      obtain ⟨clean'', of⟩ := first clean'
      exact ⟨clean'', .more of rest_of, last⟩
    | error stop state'' =>
      rw [hlater] at later
      exact fun clean => (first (later clean)).1
  | error stop state' =>
    rw [hs] at first
    cases stop with
    | outOfFuel => exact first
    | error error =>
      have later := hrest _
        { state' with rest := resume state'.rest, errors := state'.errors ++ [error] } rfl
      have recorded : state'.errors ++ [error] ≠ [] :=
        List.append_ne_nil_of_right_ne_nil _ (List.cons_ne_nil _ _)
      dsimp only
      cases hlater : rest
          { state' with rest := resume state'.rest, errors := state'.errors ++ [error] } with
      | ok body state'' =>
        rw [hlater] at later
        exact fun clean => absurd (later clean).1 recorded
      | error stop state'' =>
        rw [hlater] at later
        exact fun clean => absurd (later clean) recorded

/-- A declaration that could not be read has left an error, so without one every turn has made a
declaration. -/
theorem accepts_declarations (fuel turns : Nat) (a : Spot) :
    Accepts a (declarations fuel turns) fun program b =>
      Declarations a program b ∧ b.tokens = [] := by
  induction turns generalizing a with
  | zero =>
    refine .atEnd ?_
    split
    · exact .pure ⟨.none, List.isEmpty_iff.1 ‹_›⟩
    · exact .throw _
  | succ turns ih =>
    refine .atEnd ?_
    cases blank : a.tokens.isEmpty with
    | true => exact Accepts.pure ⟨.none, List.isEmpty_iff.1 blank⟩
    | false => exact accepts_attempt (acceptsStmts fuel).declaration ih a

end Parse

/-- A program that has been read is derived by the grammar from all of its tokens. -/
theorem declarations_of_parse {stream : TokenStream} {firstId : Id} {program : List Stmt}
    (h : (parse stream firstId).result = .ok program) :
    Grammar.Declarations ⟨stream.tokens, firstId⟩ program
      ⟨[], (parse stream firstId).nextId⟩ := by
  have accepts := Parse.accepts_declarations (Parse.fuelFor stream.tokens.length)
    stream.tokens.length _ ⟨stream.tokens, stream.lastLine, firstId, []⟩ rfl
  unfold parse at h ⊢
  dsimp only at h ⊢
  cases hs : Parse.declarations (Parse.fuelFor stream.tokens.length) stream.tokens.length
      ⟨stream.tokens, stream.lastLine, firstId, []⟩ with
  | error stop state =>
    rw [hs] at h
    cases h
  | ok body state =>
    rw [hs] at h accepts
    dsimp only at h ⊢
    split at h
    · rename_i clean
      obtain ⟨-, of, last⟩ := accepts (List.isEmpty_iff.1 clean)
      cases h
      rw [if_pos clean]
      simp only [ParseState.spot] at of last
      rwa [last] at of
    · cases h

end Lox
