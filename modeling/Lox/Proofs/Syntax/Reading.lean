/-
# Reading gives grammatical programs with fresh ids

What has been read has ids that differ from each other and lie between the next id before reading
and the one after it (`Fresh`), and it is grammatical.  `Reads` says so of a reader, for every
stretch of tokens in which no reserved word counts as a name; `scan` gives no others
(`legible_of_scan`).

* §2 has one lemma for each step of a reader.
* §3 and §4 go through the phrases, by induction on the fuel.
* §5 is the result for whole texts, `parse_made`.
-/
import Lox.Proofs.Syntax.Grammar
import Lox.Syntax.Parse
import Lox.Token.Scan

namespace Lox

/-! ## 1. Fresh ids

The parser numbers the nodes that the resolver has to look at, and draws each number once.  A phrase
holds a stretch of them. -/

/-- Ids that all differ and lie in a range. -/
structure Fresh (lo hi : Nat) (ids : List Nat) : Prop where
  le : lo ≤ hi
  distinct : ids.Nodup
  within : ∀ id ∈ ids, lo ≤ id ∧ id < hi

namespace Fresh

variable {lo mid hi : Nat} {ids ids' : List Nat}

theorem none (id : Nat) : Fresh id id [] :=
  ⟨Nat.le_refl id, List.nodup_nil, fun _ h => by cases h⟩

theorem one (id : Nat) : Fresh id (id + 1) [id] := by
  refine ⟨Nat.le_succ id, by simp, fun other h => ?_⟩
  obtain rfl := List.mem_singleton.1 h
  exact ⟨Nat.le_refl _, Nat.lt_succ_self _⟩

/-- Ids that are drawn one stretch after the other. -/
theorem append (h : Fresh lo mid ids) (h' : Fresh mid hi ids') : Fresh lo hi (ids ++ ids') := by
  have hle := h.le
  have hle' := h'.le
  refine ⟨by omega, ?_, fun id hid => ?_⟩
  · refine List.nodup_append.2 ⟨h.distinct, h'.distinct, fun id hid id' hid' => ?_⟩
    have := h.within id hid
    have := h'.within id' hid'
    omega
  · rcases List.mem_append.1 hid with hid | hid
    · have := h.within id hid
      omega
    · have := h'.within id hid
      omega

/-- Distinctness and bounds do not depend on the order. -/
theorem perm (h : Fresh lo hi ids) (same : ids.Perm ids') : Fresh lo hi ids' :=
  ⟨h.le, same.nodup_iff.1 h.distinct, fun id hid => h.within id (same.mem_iff.2 hid)⟩

/-- As `Fresh.append`, for a phrase that lists its second part first. -/
theorem append' (h : Fresh lo mid ids) (h' : Fresh mid hi ids') : Fresh lo hi (ids' ++ ids) :=
  (h.append h').perm List.perm_append_comm

/-- Ids that are not in use do no harm. -/
theorem skip_before (h : Fresh mid hi ids) (le : lo ≤ mid) : Fresh lo hi ids := by
  have hle := h.le
  refine ⟨by omega, h.distinct, fun id hid => ?_⟩
  have := h.within id hid
  omega

end Fresh

/-- A phrase with fresh ids that keeps to the grammar. -/
structure Made {α : Type} (ids : α → List Nat) (good : α → Prop) (lo hi : Nat) (phrase : α) :
    Prop where
  fresh : Fresh lo hi (ids phrase)
  good : good phrase

/-! ## 2. Readers

`Reads` is an invariant of two things: the next id only grows, and what is made has ids from the
stretch between.  The tokens ahead stay legible, because a reader only drops some of them. -/

/-- A token that counts as a name is not a reserved word. -/
def Token.Legible (token : Token) : Prop := token.kind = .identifier → Ordinary token.lexeme

namespace Parse

variable {α β : Type}

/-- What reading a phrase makes, where `lo` is the next id before and the one after it goes with
the phrase. -/
def Reads (lo : Nat) (x : Parse α) (made : (hi : Nat) → α → Prop) : Prop :=
  ∀ state : ParseState, state.nextId = lo → (∀ token ∈ state.rest, token.Legible) →
    match x state with
    | .ok phrase state' => (∀ token ∈ state'.rest, token.Legible) ∧ lo ≤ state'.nextId ∧
        made state'.nextId phrase
    | .error _ state' => (∀ token ∈ state'.rest, token.Legible) ∧ lo ≤ state'.nextId

namespace Reads

variable {lo : Nat}

theorem pure {made : Nat → α → Prop} {phrase : α} (h : made lo phrase) :
    Reads lo (Pure.pure phrase) made := by
  rintro state rfl legible
  exact ⟨legible, Nat.le_refl _, h⟩

/-- A reader that gives up makes no phrase, so nothing is to be shown of it. -/
theorem throw {made : Nat → α → Prop} (stop : ParseStop) :
    Reads lo (MonadExcept.throw stop : Parse α) made := by
  rintro state rfl legible
  exact ⟨legible, Nat.le_refl _⟩

theorem failHere {made : Nat → α → Prop} (cause : SyntaxCause) :
    Reads lo (Parse.failHere cause : Parse α) made := by
  rintro state rfl legible
  exact ⟨legible, Nat.le_refl _⟩

/-- What follows starts from the next id that the first reader has left, and from tokens that are
legible still. -/
theorem bind {x : Parse α} {f : α → Parse β} {first : Nat → α → Prop} {made : Nat → β → Prop}
    (hx : Reads lo x first)
    (hf : ∀ mid phrase, lo ≤ mid → first mid phrase → Reads mid (f phrase) made) :
    Reads lo (x >>= f) made := by
  intro state hlo legible
  have h := hx state hlo legible
  change match EStateM.bind x f state with | .ok .. => _ | .error .. => _
  unfold EStateM.bind
  cases hs : x state with
  | error stop state' =>
    rw [hs] at h
    exact h
  | ok phrase state' =>
    rw [hs] at h
    obtain ⟨legible', le, hfirst⟩ := h
    have h' := hf state'.nextId phrase le hfirst state' rfl legible'
    dsimp only
    cases hs' : f phrase state' with
    | error stop state'' =>
      rw [hs'] at h'
      exact ⟨h'.1, Nat.le_trans le h'.2⟩
    | ok phrase' state'' =>
      rw [hs'] at h'
      exact ⟨h'.1, Nat.le_trans le h'.2.1, h'.2.2⟩

/-- What has been made may be put in a weaker form. -/
theorem imp {x : Parse α} {first made : Nat → α → Prop} (hx : Reads lo x first)
    (h : ∀ hi phrase, lo ≤ hi → first hi phrase → made hi phrase) : Reads lo x made := by
  intro state hlo legible
  have hr := hx state hlo legible
  cases hs : x state with
  | error stop state' =>
    rw [hs] at hr
    exact hr
  | ok phrase state' =>
    rw [hs] at hr
    exact ⟨hr.1, hr.2.1, h _ _ hr.2.1 hr.2.2⟩

/-- A phrase may be wrapped up once it is made. -/
theorem map {x : Parse α} {f : α → β} {first : Nat → α → Prop} {made : Nat → β → Prop}
    (hx : Reads lo x first) (h : ∀ hi phrase, first hi phrase → made hi (f phrase)) :
    Reads lo (f <$> x) made := by
  rw [← bind_pure_comp]
  exact hx.bind fun mid phrase _ hfirst => .pure (h mid phrase hfirst)

/-- A step that takes no id, and then the rest. -/
theorem quiet {x : Parse α} {f : α → Parse β} {result : α → Prop} {made : Nat → β → Prop}
    (hx : Reads lo x fun hi phrase => hi = lo ∧ result phrase)
    (hf : ∀ phrase, result phrase → Reads lo (f phrase) made) : Reads lo (x >>= f) made := by
  refine hx.bind fun mid phrase _ h => ?_
  obtain ⟨rfl, h⟩ := h
  exact hf phrase h

/-- The state shows the next id, and the tokens ahead are legible. -/
theorem get : Reads lo (MonadState.get : Parse ParseState) fun hi state =>
    hi = lo ∧ ∀ token ∈ state.rest, token.Legible := by
  rintro state rfl legible
  exact ⟨legible, Nat.le_refl _, rfl, legible⟩

theorem advance : Reads lo Parse.advance fun hi _ => hi = lo ∧ True := by
  rintro state rfl legible
  exact ⟨fun token h => legible token (List.mem_of_mem_tail h), Nat.le_refl _, rfl, trivial⟩

theorem record (error : SyntaxError) :
    Reads lo (Parse.record error) fun hi _ => hi = lo ∧ True := by
  rintro state rfl legible
  exact ⟨legible, Nat.le_refl _, rfl, trivial⟩

theorem recordHere (cause : SyntaxCause) :
    Reads lo (Parse.recordHere cause) fun hi _ => hi = lo ∧ True :=
  .quiet .get fun _ _ => .record _

/-- The only step that draws an id. -/
theorem freshId : Reads lo Parse.freshId fun hi id => hi = lo + 1 ∧ id = lo := by
  rintro state rfl legible
  exact ⟨legible, Nat.le_succ _, rfl, rfl⟩

/-- The next token is one of those ahead. -/
theorem peek? : Reads lo Parse.peek? fun hi found =>
    hi = lo ∧ ∀ token, found = some token → token.Legible := by
  refine .quiet .get fun state legible => .pure ⟨rfl, fun token h => ?_⟩
  exact legible token (List.mem_of_mem_head? h)

theorem peekKind? : Reads lo Parse.peekKind? fun hi _ => hi = lo ∧ True :=
  .quiet .peek? fun _ _ => .pure ⟨rfl, trivial⟩

theorem nextIs (symbol : Symbol) : Reads lo (Parse.nextIs symbol) fun hi _ => hi = lo ∧ True :=
  .quiet .peek? fun _ _ => .pure ⟨rfl, trivial⟩

theorem atEnd : Reads lo Parse.atEnd fun hi _ => hi = lo ∧ True :=
  .quiet .get fun _ _ => .pure ⟨rfl, trivial⟩

theorem skip (symbol : Symbol) : Reads lo (Parse.skip symbol) fun hi _ => hi = lo ∧ True := by
  refine .quiet (.nextIs symbol) fun found _ => ?_
  split
  · exact .quiet .advance fun _ _ => .pure ⟨rfl, trivial⟩
  · exact .pure ⟨rfl, trivial⟩

theorem expect (place : Place) : Reads lo (Parse.expect place) fun hi _ => hi = lo ∧ True := by
  refine .quiet .peek? fun found _ => ?_
  split
  · split
    · exact .quiet .advance fun _ _ => .pure ⟨rfl, trivial⟩
    · exact .failHere _
  · exact .failHere _

/-- What counts as a name is an ordinary name, since the token is legible. -/
theorem expectName (role : NameRole) :
    Reads lo (Parse.expectName role) fun hi name => hi = lo ∧ Ordinary name.text := by
  refine .quiet .peek? fun found legible => ?_
  split
  · exact .quiet .advance fun _ _ => .pure ⟨rfl, legible _ rfl rfl⟩
  · exact .failHere _

/-- Taking an operator draws no id. -/
theorem operator? (level : Level) :
    Reads lo (Parse.operator? level) fun hi _ => hi = lo ∧ True := by
  refine .quiet .peek? fun found _ => ?_
  split
  · exact .pure ⟨rfl, trivial⟩
  · split
    · exact .pure ⟨rfl, trivial⟩
    · exact .quiet .advance fun _ _ => .pure ⟨rfl, trivial⟩

theorem unaryOperator? : Reads lo Parse.unaryOperator? fun hi _ => hi = lo ∧ True := by
  refine .quiet .peek? fun found _ => ?_
  split
  · exact .quiet .advance fun _ _ => .pure ⟨rfl, trivial⟩
  · exact .quiet .advance fun _ _ => .pure ⟨rfl, trivial⟩
  · exact .pure ⟨rfl, trivial⟩

end Reads

/-! ## 3. Expressions

All readers call each other with one unit of fuel less, so their statements are proved together. -/

/-- An expression that has been read. -/
abbrev MadeExpr := Made Expr.ids Expr.Grammatical

/-- A list of expressions that have been read. -/
abbrev MadeExprs := Made Expr.idsAll Expr.GrammaticalAll

/-- What the readers of expressions make. -/
structure ReadsExprs (fuel : Nat) : Prop where
  expression : ∀ lo, Reads lo (expression fuel) (MadeExpr lo)
  ladder : ∀ level lo, Reads lo (ladder fuel level) (MadeExpr lo)
  operand : ∀ level lo, Reads lo (operand fuel level) (MadeExpr lo)
  ladderRest : ∀ level left lo mid, MadeExpr lo mid left →
    Reads mid (ladderRest fuel level left) (MadeExpr lo)
  unary : ∀ lo, Reads lo (unary fuel) (MadeExpr lo)
  callRest : ∀ callee lo mid, MadeExpr lo mid callee →
    Reads mid (callRest fuel callee) (MadeExpr lo)
  arguments : ∀ count lo, Reads lo (arguments fuel count) (MadeExprs lo)
  elements : ∀ lo, Reads lo (elements fuel) (MadeExprs lo)
  primary : ∀ lo, Reads lo (primary fuel) (MadeExpr lo)

namespace ReadsExprs

/-- Without fuel nothing is made. -/
theorem zero : ReadsExprs 0 where
  expression _ := .throw _
  ladder _ _ := .throw _
  operand _ _ := .throw _
  ladderRest _ _ _ _ _ := .throw _
  unary _ := .throw _
  callRest _ _ _ _ := .throw _
  arguments _ _ := .throw _
  elements _ := .throw _
  primary _ := .throw _

variable {fuel : Nat} (ih : ReadsExprs fuel)

include ih

/-- The target of an assignment has been made before its value.  If it is a variable or a property,
its parts are in the assignment as they were. -/
theorem expression_succ (lo : Nat) : Reads lo (Parse.expression (fuel + 1)) (MadeExpr lo) := by
  refine (ih.ladder .or lo).bind fun mid target _ target_made => .quiet .peek? fun found _ => ?_
  split
  · refine .quiet .advance fun _ _ => (ih.expression mid).bind fun hi value _ value_made => ?_
    split
    · rename_i v
      refine .bind .freshId fun hi' id _ h => ?_
      obtain ⟨rfl, rfl⟩ := h
      have value_fresh := value_made.fresh.skip_before target_made.fresh.le
      exact .pure ⟨value_fresh.append (.one id), target_made.good, value_made.good⟩
    · exact .pure ⟨target_made.fresh.append' value_made.fresh, target_made.good, value_made.good⟩
    · refine .quiet (.record _) fun _ _ => .pure ⟨?_, value_made.good⟩
      exact value_made.fresh.skip_before target_made.fresh.le
  · exact .pure target_made

theorem ladder_succ (level : Level) (lo : Nat) :
    Reads lo (Parse.ladder (fuel + 1) level) (MadeExpr lo) :=
  (ih.operand level lo).bind fun mid left _ left_made => ih.ladderRest level left lo mid left_made

theorem operand_succ (level : Level) (lo : Nat) :
    Reads lo (Parse.operand (fuel + 1) level) (MadeExpr lo) := by
  unfold Parse.operand
  split
  · exact ih.ladder _ lo
  · exact ih.unary lo

/-- The operands behind an operator have later ids than the one in front. -/
theorem ladderRest_succ (level : Level) {left : Expr} {lo mid : Nat} (made : MadeExpr lo mid left) :
    Reads mid (Parse.ladderRest (fuel + 1) level left) (MadeExpr lo) := by
  refine .quiet (.operator? level) fun found _ => ?_
  split
  · exact .pure made
  · rename_i op line
    refine (ih.operand level mid).bind fun hi right _ right_made => ih.ladderRest _ _ lo hi ?_
    cases op with
    | binary op => exact ⟨made.fresh.append right_made.fresh, made.good, right_made.good⟩
    | logical op => exact ⟨made.fresh.append right_made.fresh, made.good, right_made.good⟩

theorem unary_succ (lo : Nat) : Reads lo (Parse.unary (fuel + 1)) (MadeExpr lo) := by
  refine .quiet .unaryOperator? fun found _ => ?_
  split
  · exact (ih.unary lo).bind fun mid operand _ made => .pure ⟨made.fresh, made.good⟩
  · exact (ih.primary lo).bind fun mid callee _ made => ih.callRest callee lo mid made

/-- A call, or the property that follows a dot, has later ids than what it is behind. -/
theorem callRest_succ {callee : Expr} {lo mid : Nat} (made : MadeExpr lo mid callee) :
    Reads mid (Parse.callRest (fuel + 1) callee) (MadeExpr lo) := by
  refine .quiet .peekKind? fun found _ => ?_
  split
  · refine .quiet .advance fun _ _ => .quiet (.nextIs _) fun closed _ => ?_
    have rest : ∀ values hi, MadeExprs mid hi values → Reads hi (do
        let line ← Parse.expect .afterArguments
        Parse.callRest fuel (.call callee values line)) (MadeExpr lo) := by
      intro values hi values_made
      exact .quiet (.expect _) fun line _ => ih.callRest _ lo hi
        ⟨made.fresh.append values_made.fresh, made.good, values_made.good⟩
    split
    · exact rest [] mid ⟨.none mid, trivial⟩
    · exact (ih.arguments 0 mid).bind fun hi values _ => rest values hi
  · refine .quiet .advance fun _ _ => .quiet (.expectName _) fun property _ => ?_
    exact ih.callRest _ lo mid ⟨made.fresh, made.good⟩
  · exact .pure made

/-- Arguments are made from left to right. -/
theorem arguments_succ (count lo : Nat) :
    Reads lo (Parse.arguments (fuel + 1) count) (MadeExprs lo) := by
  have rest : Reads lo (do
      let value ← Parse.expression fuel
      if ← Parse.skip .comma then return value :: (← Parse.arguments fuel (count + 1))
      else return [value]) (MadeExprs lo) := by
    refine (ih.expression lo).bind fun mid value _ made => .quiet (.skip _) fun more _ => ?_
    split
    · exact (ih.arguments _ mid).bind fun hi rest _ rest_made =>
        .pure ⟨made.fresh.append rest_made.fresh, made.good, rest_made.good⟩
    · refine .pure ⟨?_, made.good, trivial⟩
      simpa only [Expr.idsAll, List.append_nil] using made.fresh
  unfold Parse.arguments
  split
  · exact .quiet (.recordHere _) fun _ _ => rest
  · exact rest

theorem elements_succ (lo : Nat) : Reads lo (Parse.elements (fuel + 1)) (MadeExprs lo) := by
  refine (ih.expression lo).bind fun mid value _ made => .quiet (.skip _) fun more _ => ?_
  split
  · exact (ih.elements mid).bind fun hi rest _ rest_made =>
      .pure ⟨made.fresh.append rest_made.fresh, made.good, rest_made.good⟩
  · refine .pure ⟨?_, made.good, trivial⟩
    simpa only [Expr.idsAll, List.append_nil] using made.fresh

/-- Primary expressions are where ids are drawn: for a variable, `this` and `super`. -/
theorem primary_succ (lo : Nat) : Reads lo (Parse.primary (fuel + 1)) (MadeExpr lo) := by
  refine .quiet .peek? fun found legible => ?_
  split
  · exact .failHere _
  · have literal : ∀ value : Literal, Reads lo (do Parse.advance; return .literal value)
        (MadeExpr lo) :=
      fun value => .quiet .advance fun _ _ => .pure ⟨.none lo, trivial⟩
    split
    · exact literal _
    · exact literal _
    · exact literal _
    · exact literal _
    · exact literal _
    · refine .quiet .advance fun _ _ => .bind .freshId fun hi id _ h => ?_
      obtain ⟨rfl, rfl⟩ := h
      exact .pure ⟨.one id, legible _ rfl rfl⟩
    · refine .quiet .advance fun _ _ => .bind .freshId fun hi id _ h => ?_
      obtain ⟨rfl, rfl⟩ := h
      exact .pure ⟨.one id, trivial⟩
    · refine .quiet .advance fun _ _ => .quiet (.expect _) fun _ _ =>
        .quiet (.expectName _) fun method _ => .bind .freshId fun hi id _ h => ?_
      obtain ⟨rfl, rfl⟩ := h
      exact .pure ⟨.one id, trivial⟩
    · refine .quiet .advance fun _ _ => (ih.expression lo).bind fun hi inner _ made => ?_
      exact .quiet (.expect _) fun _ _ => Reads.pure ⟨made.fresh, made.good⟩
    · rename_i line _
      have rest : ∀ values hi, MadeExprs lo hi values → Reads hi (do
          let _ ← Parse.expect .afterElements
          return .list line values) (MadeExpr lo) :=
        fun values hi made => .quiet (.expect _) fun _ _ => .pure ⟨made.fresh, made.good⟩
      refine .quiet .advance fun _ _ => .quiet (.nextIs _) fun closed _ => ?_
      split
      · exact rest [] lo ⟨.none lo, trivial⟩
      · exact (ih.elements lo).bind fun hi values _ => rest values hi
    · exact .failHere _

end ReadsExprs

/-- All readers of expressions together, by induction on the fuel. -/
theorem readsExprs : ∀ fuel, ReadsExprs fuel
  | 0 => .zero
  | fuel + 1 =>
    have ih := readsExprs fuel
    { expression := ih.expression_succ
      ladder := ih.ladder_succ
      operand := ih.operand_succ
      ladderRest := fun level _ _ _ made => ih.ladderRest_succ level made
      unary := ih.unary_succ
      callRest := fun _ _ _ made => ih.callRest_succ made
      arguments := ih.arguments_succ
      elements := ih.elements_succ
      primary := ih.primary_succ }

/-- An optional expression that has been read. -/
abbrev MadeOptional := Made Expr.idsOptional Expr.GrammaticalOptional

/-- An optional expression that is there. -/
theorem reads_some (fuel lo : Nat) : Reads lo (some <$> expression fuel) (MadeOptional lo) :=
  ((readsExprs fuel).expression lo).map fun _ _ made => ⟨made.fresh, made.good⟩

/-! ## 4. Statements

As for expressions.  That a branch is not a declaration is part of what is made. -/

/-- A declaration or statement that has been read. -/
abbrev MadeStmt := Made Stmt.ids Stmt.Grammatical

/-- A statement that has been read where no declaration may stand. -/
abbrev MadeBranch := Made Stmt.ids fun s => s.declared? = none ∧ s.Grammatical

/-- A list of declarations and statements that have been read. -/
abbrev MadeStmts := Made Stmt.idsAll Stmt.GrammaticalAll

/-- A function that has been read. -/
abbrev MadeFun := Made FunDecl.ids fun declaration =>
  Ordinary declaration.name.text ∧ declaration.Grammatical

/-- A list of methods that have been read. -/
abbrev MadeFuns := Made FunDecl.idsAll FunDecl.GrammaticalAll

/-- Parameters are names, and no ids are drawn for them. -/
theorem reads_parameters : ∀ fuel count lo, Reads lo (parameters fuel count) fun hi names =>
    hi = lo ∧ ∀ name ∈ names, Ordinary name.text
  | 0, _, _ => .throw _
  | fuel + 1, count, lo => by
    have rest : Reads lo (do
        let name ← expectName .parameter
        if ← Parse.skip .comma then return name :: (← parameters fuel (count + 1))
        else return [name]) fun hi names => hi = lo ∧ ∀ name ∈ names, Ordinary name.text := by
      refine .quiet (.expectName _) fun name ordinary => .quiet (.skip _) fun more _ => ?_
      split
      · refine .quiet (reads_parameters fuel _ lo) fun names ordinary' => .pure ⟨rfl, ?_⟩
        intro other hother
        rcases List.mem_cons.1 hother with rfl | hmem
        · exact ordinary
        · exact ordinary' other hmem
      · refine .pure ⟨rfl, fun other hother => ?_⟩
        obtain rfl := List.mem_singleton.1 hother
        exact ordinary
    unfold parameters
    split
    · exact .quiet (.recordHere _) fun _ _ => rest
    · exact rest

/-- The name of a variable is ordinary, and its initializer, if there is one, has been made. -/
theorem reads_varDeclaration (fuel lo : Nat) : Reads lo (varDeclaration fuel) (MadeStmt lo) := by
  refine .quiet (.expectName _) fun name ordinary => .quiet (.skip _) fun given _ => ?_
  have rest : ∀ initializer hi, MadeOptional lo hi initializer → Reads hi (do
      let _ ← expect .afterVariable
      return .varDecl name initializer) (MadeStmt lo) :=
    fun initializer hi made =>
      .quiet (.expect _) fun _ _ => .pure ⟨made.fresh, ordinary, made.good⟩
  split
  · exact (reads_some fuel lo).bind fun hi value _ => rest value hi
  · exact rest none lo ⟨.none lo, trivial⟩

/-- An expression with its semicolon. -/
theorem reads_expressionStatement (fuel lo : Nat) :
    Reads lo (expressionStatement fuel) (MadeBranch lo) :=
  ((readsExprs fuel).expression lo).bind fun _ _ _ made =>
    .quiet (.expect _) fun _ _ => .pure ⟨made.fresh, rfl, made.good⟩

/-- What the readers of statements make. -/
structure ReadsStmts (fuel : Nat) : Prop where
  declaration : ∀ lo, Reads lo (declaration fuel) (MadeStmt lo)
  classDeclaration : ∀ lo, Reads lo (classDeclaration fuel) (MadeStmt lo)
  methods : ∀ lo, Reads lo (methods fuel) (MadeFuns lo)
  function : ∀ kind lo, Reads lo (function fuel kind) (MadeFun lo)
  block : ∀ lo, Reads lo (block fuel) (MadeStmts lo)
  statement : ∀ lo, Reads lo (statement fuel) (MadeBranch lo)
  ifStatement : ∀ lo, Reads lo (ifStatement fuel) (MadeBranch lo)
  forStatement : ∀ lo, Reads lo (forStatement fuel) (MadeBranch lo)
  foreachStatement : ∀ line lo, Reads lo (foreachStatement fuel line) (MadeBranch lo)

namespace ReadsStmts

/-- Without fuel nothing is made. -/
theorem zero : ReadsStmts 0 where
  declaration _ := .throw _
  classDeclaration _ := .throw _
  methods _ := .throw _
  function _ _ := .throw _
  block _ := .throw _
  statement _ := .throw _
  ifStatement _ := .throw _
  forStatement _ := .throw _
  foreachStatement _ _ := .throw _

variable {fuel : Nat} (ih : ReadsStmts fuel)

include ih

/-- Which reader goes on is decided by the next token, and each makes a statement that may stand
here. -/
theorem declaration_succ (lo : Nat) : Reads lo (Parse.declaration (fuel + 1)) (MadeStmt lo) := by
  refine .quiet .peekKind? fun found _ => ?_
  split
  · exact .quiet .advance fun _ _ => ih.classDeclaration lo
  · exact .quiet .advance fun _ _ => (ih.function _ lo).bind fun hi declaration _ made =>
      .pure ⟨made.fresh, made.good⟩
  · exact .quiet .advance fun _ _ => reads_varDeclaration fuel lo
  · exact (ih.statement lo).imp fun hi s _ made => ⟨made.fresh, made.good.2⟩

/-- A superclass is a variable with an id of its own, drawn before those of the methods. -/
theorem classDeclaration_succ (lo : Nat) :
    Reads lo (Parse.classDeclaration (fuel + 1)) (MadeStmt lo) := by
  refine .quiet (.expectName _) fun name ordinary => .quiet (.skip _) fun given _ => ?_
  have rest : ∀ (superclass : Option Variable) (mid : Nat),
      Fresh lo mid (superclass.map Variable.id).toList → Reads mid (do
        let _ ← expect .beforeClassBody
        let methods ← Parse.methods fuel
        let _ ← expect .afterClassBody
        return .classDecl name superclass methods) (MadeStmt lo) :=
    fun superclass mid fresh => .quiet (.expect _) fun _ _ => (ih.methods mid).bind
      fun hi methods _ made => .quiet (.expect _) fun _ _ =>
        .pure ⟨fresh.append made.fresh, ordinary, made.good⟩
  split
  · refine .quiet (.expectName _) fun superName _ => .bind .freshId fun mid id _ h => ?_
    obtain ⟨rfl, rfl⟩ := h
    exact rest (some ⟨id, superName⟩) (id + 1) (.one id)
  · exact rest none lo (.none lo)

/-- Methods are made one after the other, up to the closing brace. -/
theorem methods_succ (lo : Nat) : Reads lo (Parse.methods (fuel + 1)) (MadeFuns lo) := by
  refine .quiet (.nextIs _) fun closed _ => .quiet .atEnd fun ended _ => ?_
  split
  · exact .pure ⟨.none lo, trivial⟩
  · exact (ih.function _ lo).bind fun mid method _ made =>
      (ih.methods mid).bind fun hi rest _ made' =>
      .pure ⟨made.fresh.append made'.fresh, made.good.2, made'.good⟩

/-- A function has the ids of its body. -/
theorem function_succ (kind : FunKind) (lo : Nat) :
    Reads lo (Parse.function (fuel + 1) kind) (MadeFun lo) := by
  refine .quiet (.expectName _) fun name ordinary => .quiet (.expect _) fun _ _ =>
    .quiet (.nextIs _) fun closed _ => ?_
  have rest : ∀ params : List Name, (∀ name ∈ params, Ordinary name.text) → Reads lo (do
      let _ ← expect .afterParameters
      let _ ← expect (.beforeBody kind)
      return ⟨name, params, ← Parse.block fuel⟩) (MadeFun lo) :=
    fun params good => .quiet (.expect _) fun _ _ => .quiet (.expect _) fun _ _ =>
      (ih.block lo).bind fun hi body _ made => .pure ⟨made.fresh, ordinary, good, made.good⟩
  split
  · exact rest [] fun _ h => by cases h
  · exact .quiet (reads_parameters fuel 0 lo) rest

/-- The statements of a block, up to the closing brace. -/
theorem block_succ (lo : Nat) : Reads lo (Parse.block (fuel + 1)) (MadeStmts lo) := by
  refine .quiet (.nextIs _) fun closed _ => .quiet .atEnd fun ended _ => ?_
  split
  · exact .quiet (.expect _) fun _ _ => .pure ⟨.none lo, trivial⟩
  · exact (ih.declaration lo).bind fun mid first _ made =>
      (ih.block mid).bind fun hi rest _ made' =>
      .pure ⟨made.fresh.append made'.fresh, made.good, made'.good⟩

/-- A statement of each kind is made by its own reader, and none of them is a declaration. -/
theorem statement_succ (lo : Nat) : Reads lo (Parse.statement (fuel + 1)) (MadeBranch lo) := by
  refine .quiet .peek? fun found _ => ?_
  split
  · exact .quiet .advance fun _ _ => ih.ifStatement lo
  · refine .quiet .advance fun _ _ =>
      ((readsExprs fuel).expression lo).bind fun hi value _ made => ?_
    exact .quiet (.expect _) fun _ _ => Reads.pure ⟨made.fresh, rfl, made.good⟩
  · rename_i line _
    have rest : ∀ value hi, MadeOptional lo hi value → Reads hi (do
        let _ ← expect .afterReturn
        return .ret line value) (MadeBranch lo) :=
      fun value hi made => .quiet (.expect _) fun _ _ => .pure ⟨made.fresh, rfl, made.good⟩
    refine .quiet .advance fun _ _ => .quiet (.nextIs _) fun closed _ => ?_
    split
    · exact rest none lo ⟨.none lo, trivial⟩
    · exact (reads_some fuel lo).bind fun hi value _ => rest value hi
  · exact .quiet .advance fun _ _ => (ih.block lo).bind fun hi body _ made =>
      .pure ⟨made.fresh, rfl, made.good⟩
  · refine .quiet .advance fun _ _ => .quiet (.expect _) fun _ _ =>
      ((readsExprs fuel).expression lo).bind fun mid condition _ made => ?_
    exact .quiet (.expect _) fun _ _ => (ih.statement mid).bind fun hi body _ made' =>
      Reads.pure ⟨made.fresh.append made'.fresh, rfl, made.good, made'.good⟩
  · exact .quiet .advance fun _ _ => ih.forStatement lo
  · exact .quiet .advance fun _ _ => ih.foreachStatement _ lo
  · exact reads_expressionStatement fuel lo

/-- The ids of the condition come first, then those of the two branches. -/
theorem ifStatement_succ (lo : Nat) : Reads lo (Parse.ifStatement (fuel + 1)) (MadeBranch lo) := by
  refine .quiet (.expect _) fun _ _ =>
    ((readsExprs fuel).expression lo).bind fun mid condition _ made =>
    .quiet (.expect _) fun _ _ => (ih.statement mid).bind fun hi thenBranch _ made' =>
      .quiet .peekKind? fun found _ => ?_
  have both := made.fresh.append made'.fresh
  split
  · refine .quiet .advance fun _ _ =>
      (ih.statement hi).bind fun last elseBranch _ made'' => .pure ?_
    exact ⟨both.append made''.fresh, rfl, made.good, made'.good, made''.good⟩
  · refine .pure ⟨?_, rfl, made.good, made'.good, trivial⟩
    simpa only [Stmt.ids, Stmt.idsOptional, List.append_nil] using both

omit ih in
/-- The ids of a `for` loop stand in another order than that in which they were taken. -/
theorem made_forLoop {lo a b c hi : Nat} {initializer : Option Stmt} {condition : Expr}
    {increment : Option Expr} {body : Stmt}
    (first : Made Stmt.idsOptional (fun s => ∀ s' ∈ s, s'.Grammatical) lo a initializer)
    (test : MadeExpr a b condition)
    (step : MadeOptional b c increment)
    (made : MadeBranch c hi body) :
    MadeBranch lo hi (forLoop initializer condition increment body) := by
  obtain ⟨turn, turn_made, unfolded⟩ : ∃ turn, MadeBranch b hi turn ∧
      forLoop initializer condition increment body =
        (initializer.elim (.whileLoop condition turn)
          fun first => .block [first, .whileLoop condition turn]) := by
    cases increment with
    | none =>
      refine ⟨body, ⟨made.fresh.skip_before step.fresh.le, made.good⟩, ?_⟩
      cases initializer <;> rfl
    | some e =>
      refine ⟨.block [body, .expression e], ⟨?_, rfl, made.good.2, step.good, trivial⟩, ?_⟩
      · simpa only [Stmt.ids, Stmt.idsAll, Expr.idsOptional, List.append_nil] using
          step.fresh.append' made.fresh
      · cases initializer <;> rfl
  rw [unfolded]
  have loop := test.fresh.append turn_made.fresh
  cases initializer with
  | none => exact ⟨loop.skip_before first.fresh.le, rfl, test.good, turn_made.good⟩
  | some s =>
    refine ⟨?_, rfl, first.good s rfl, ⟨test.good, turn_made.good⟩, trivial⟩
    simpa only [Option.elim, Stmt.ids, Stmt.idsAll, Stmt.idsOptional, List.append_nil] using
      first.fresh.append loop

/-- The parts of a `for` loop have been read when it is written out as a `while` loop, so the ids
are those of the parts in another order. -/
theorem forStatement_succ (lo : Nat) :
    Reads lo (Parse.forStatement (fuel + 1)) (MadeBranch lo) := by
  have clauses : ∀ initializer a,
      Made Stmt.idsOptional (fun s => ∀ s' ∈ s, s'.Grammatical) lo a initializer → Reads a (do
        let condition ← if ← Parse.nextIs .semicolon then pure (.literal (.boolean true))
          else Parse.expression fuel
        let _ ← Parse.expect .afterLoopCondition
        let increment ← if ← Parse.nextIs .rightParen then pure none
          else some <$> Parse.expression fuel
        let _ ← Parse.expect .afterForClauses
        return forLoop initializer condition increment (← Parse.statement fuel))
        (MadeBranch lo) := by
    intro initializer a first
    have last : ∀ condition b, MadeExpr a b condition → ∀ increment c, MadeOptional b c increment →
        Reads c (do
          let _ ← Parse.expect .afterForClauses
          return forLoop initializer condition increment (← Parse.statement fuel))
          (MadeBranch lo) := by
      intro condition b test increment c step
      exact .quiet (.expect _) fun _ _ => (ih.statement c).bind fun hi body _ made =>
        Reads.pure (made_forLoop first test step made)
    have middle : ∀ condition b, MadeExpr a b condition → Reads b (do
        let _ ← Parse.expect .afterLoopCondition
        let increment ← if ← Parse.nextIs .rightParen then pure none
          else some <$> Parse.expression fuel
        let _ ← Parse.expect .afterForClauses
        return forLoop initializer condition increment (← Parse.statement fuel))
        (MadeBranch lo) := by
      intro condition b test
      refine .quiet (.expect _) fun _ _ => .quiet (.nextIs _) fun closed _ => ?_
      split
      · exact last condition b test none b ⟨.none b, trivial⟩
      · exact (reads_some fuel b).bind fun c increment _ => last condition b test increment c
    refine .quiet (.nextIs _) fun absent _ => ?_
    split
    · exact middle _ a ⟨.none a, trivial⟩
    · exact ((readsExprs fuel).expression a).bind fun b condition _ => middle condition b
  refine .quiet (.expect _) fun _ _ => .quiet .peekKind? fun found _ => ?_
  split
  · exact .quiet .advance fun _ _ => clauses none lo ⟨.none lo, fun _ h => by cases h⟩
  · have declared : Reads lo (some <$> varDeclaration fuel) fun a =>
        Made Stmt.idsOptional (fun s => ∀ s' ∈ s, s'.Grammatical) lo a :=
      (reads_varDeclaration fuel lo).map fun a s made =>
        ⟨made.fresh, fun _ h => by cases h; exact made.good⟩
    exact .quiet .advance fun _ _ => declared.bind fun a initializer _ => clauses initializer a
  · have evaluated : Reads lo (some <$> expressionStatement fuel) fun a =>
        Made Stmt.idsOptional (fun s => ∀ s' ∈ s, s'.Grammatical) lo a :=
      (reads_expressionStatement fuel lo).map fun a s made =>
        ⟨made.fresh, fun _ h => by cases h; exact made.good.2⟩
    exact evaluated.bind fun a initializer _ => clauses initializer a

/-- The variable of the loop is a name, and the ids are those of the iterable and the body. -/
theorem foreachStatement_succ (line lo : Nat) :
    Reads lo (Parse.foreachStatement (fuel + 1) line) (MadeBranch lo) := by
  have rest : Reads lo (do
      let name ← Parse.expectName .loopVariable
      let _ ← Parse.expect .afterLoopVariable
      let iterable ← Parse.expression fuel
      let _ ← Parse.expect .afterForeachClauses
      return .forEach line name iterable (← Parse.statement fuel)) (MadeBranch lo) := by
    refine .quiet (.expectName _) fun name ordinary => .quiet (.expect _) fun _ _ =>
      ((readsExprs fuel).expression lo).bind fun mid iterable _ made => ?_
    exact .quiet (.expect _) fun _ _ => (ih.statement mid).bind fun hi body _ made' =>
      Reads.pure ⟨made.fresh.append made'.fresh, rfl, ordinary, made.good, made'.good⟩
  refine .quiet (.expect _) fun _ _ => .quiet .peekKind? fun found _ => ?_
  split
  · exact .quiet .advance fun _ _ => rest
  · exact rest

end ReadsStmts

/-- All readers of statements together, by induction on the fuel. -/
theorem readsStmts : ∀ fuel, ReadsStmts fuel
  | 0 => .zero
  | fuel + 1 =>
    have ih := readsStmts fuel
    { declaration := ih.declaration_succ
      classDeclaration := ih.classDeclaration_succ
      methods := ih.methods_succ
      function := ih.function_succ
      block := ih.block_succ
      statement := ih.statement_succ
      ifStatement := ih.ifStatement_succ
      forStatement := ih.forStatement_succ
      foreachStatement := ih.foreachStatement_succ }

/-! ## 5. Texts

A program is what all its turns have made, and the tokens of a text are legible because a word is
compared with the reserved words before it counts as a name. -/

/-- Skipping to the next statement takes tokens away and adds none. -/
theorem mem_of_mem_resumeAfter {previous token : Token} {rest : List Token}
    (h : token ∈ resumeAfter previous rest) : token ∈ rest := by
  induction rest generalizing previous with
  | nil => exact h
  | cons next rest ih =>
    rw [resumeAfter] at h
    split at h
    · exact h
    · exact List.mem_cons_of_mem _ (ih h)

theorem mem_of_mem_resume {token : Token} {tokens : List Token} (h : token ∈ resume tokens) :
    token ∈ tokens := by
  cases tokens with
  | nil => exact h
  | cons first rest => exact List.mem_cons_of_mem _ (mem_of_mem_resumeAfter h)

/-- An attempt at a declaration, and the rest behind it or behind its error. -/
theorem reads_attempt {x : Parse Stmt} {rest : Parse (List Stmt)}
    (hx : ∀ lo, Reads lo x (MadeStmt lo)) (hrest : ∀ lo, Reads lo rest (MadeStmts lo)) (lo : Nat) :
    Reads lo (fun state =>
      match x state with
      | .ok first state =>
        match rest state with
        | .ok rest state => .ok (first :: rest) state
        | .error stop state => .error stop state
      | .error (.error error) state =>
        rest { state with rest := resume state.rest, errors := state.errors ++ [error] }
      | .error .outOfFuel state => .error .outOfFuel state) (MadeStmts lo) := by
  intro state hlo legible
  have first := hx lo state hlo legible
  dsimp only
  cases hs : x state with
  | ok s state' =>
    rw [hs] at first
    obtain ⟨legible', le, made⟩ := first
    have later := hrest state'.nextId state' rfl legible'
    dsimp only
    cases hlater : rest state' with
    | ok body state'' =>
      rw [hlater] at later
      obtain ⟨legible'', le', made'⟩ := later
      exact ⟨legible'', Nat.le_trans le le', made.fresh.append made'.fresh, made.good, made'.good⟩
    | error stop state'' =>
      rw [hlater] at later
      exact ⟨later.1, Nat.le_trans le later.2⟩
  | error stop state' =>
    rw [hs] at first
    obtain ⟨legible', le⟩ := first
    cases stop with
    | outOfFuel => exact ⟨legible', le⟩
    | error error =>
      have later := hrest state'.nextId
        { state' with rest := resume state'.rest, errors := state'.errors ++ [error] } rfl
        fun token h => legible' token (mem_of_mem_resume h)
      dsimp only
      cases hlater : rest
          { state' with rest := resume state'.rest, errors := state'.errors ++ [error] } with
      | ok body state'' =>
        rw [hlater] at later
        obtain ⟨legible'', le', made⟩ := later
        exact ⟨legible'', Nat.le_trans le le', made.fresh.skip_before le, made.good⟩
      | error stop state'' =>
        rw [hlater] at later
        exact ⟨later.1, Nat.le_trans le later.2⟩

/-- A declaration that could not be read leaves no phrase behind, and the ids that it has drawn are
not used again. -/
theorem reads_declarations (fuel turns lo : Nat) :
    Reads lo (declarations fuel turns) (MadeStmts lo) := by
  induction turns generalizing lo with
  | zero =>
    refine .quiet .atEnd fun ended _ => ?_
    split
    · exact .pure ⟨.none lo, trivial⟩
    · exact .throw _
  | succ turns ih =>
    refine .quiet .atEnd fun ended _ => ?_
    cases ended with
    | true => exact Reads.pure ⟨.none lo, trivial⟩
    | false => exact reads_attempt (readsStmts fuel).declaration ih lo

end Parse

/-- A word that is an identifier is not among the reserved words. -/
theorem ordinary_of_wordKind {word : List Char} (h : wordKind word = .identifier) :
    Ordinary (String.ofList word) := by
  unfold wordKind at h
  split at h
  · cases h
  · rename_i free
    constructor
    · intro hw
      rw [hw] at free
      cases free
    · intro hw
      rw [hw] at free
      cases free

/-- A piece that is a name is not a reserved word. -/
theorem legible_firstPiece (c : Char) (rest : List Char) :
    (firstPiece c rest).1.kind = .token .identifier →
      Ordinary (String.ofList (firstPiece c rest).1.text) := by
  have number : ∀ whole fraction, numberKind whole fraction ≠ .identifier :=
    fun whole fraction h => by simp [numberKind] at h
  unfold firstPiece
  split
  · intro h
    cases h
  split
  · dsimp only
    split <;> intro h <;> cases h
  split
  · dsimp only
    repeat' split
    all_goals exact fun h => absurd (PieceKind.token.inj h) (number _ _)
  split
  · exact fun h => ordinary_of_wordKind (PieceKind.token.inj h)
  split
  · intro h
    cases h
  repeat' split
  all_goals intro h; cases h

/-- What holds of all pieces that are tokens holds of the tokens that are made from them. -/
theorem forall_tokens_ofPieces {P : Kind → String → Prop} (line : Nat) (found : List Piece)
    (h : ∀ piece ∈ found, ∀ kind, piece.kind = .token kind → P kind (String.ofList piece.text)) :
    ∀ token ∈ (Scanned.ofPieces line found).tokens, P token.kind token.lexeme := by
  induction found generalizing line with
  | nil => intro token htoken; cases htoken
  | cons piece rest ih =>
    have hrest := fun line' => ih line' fun other hother => h other (List.mem_cons_of_mem _ hother)
    intro token htoken
    rw [Scanned.ofPieces] at htoken
    split at htoken
    · rename_i kind hkind
      rcases List.mem_cons.1 htoken with rfl | hmem
      · exact h piece List.mem_cons_self kind hkind
      · exact hrest _ token hmem
    · exact hrest _ token htoken
    · exact hrest _ token htoken
    · exact hrest _ token htoken

/-- Every piece of a text is the first piece of what was left when it was reached. -/
theorem forall_pieces {P : Piece → Prop} (h : ∀ c rest, P (firstPiece c rest).1)
    (text : List Char) : ∀ piece ∈ pieces text, P piece := by
  fun_induction pieces text with
  | case1 =>
    intro piece hmem
    cases hmem
  | case2 c rest ih =>
    intro piece hmem
    rcases List.mem_cons.1 hmem with rfl | hmem
    · exact h c rest
    · exact ih piece hmem

/-- What is so for every piece that is a token is so for every token of a text. -/
theorem forall_tokens_of_scan {P : Kind → String → Prop}
    (every : ∀ c rest kind, (firstPiece c rest).1.kind = .token kind →
      P kind (String.ofList (firstPiece c rest).1.text))
    {source : String} {stream : TokenStream} (h : scan source = .ok stream) :
    ∀ token ∈ stream.tokens, P token.kind token.lexeme := by
  unfold scan at h
  dsimp only at h
  split at h
  · cases h
    exact forall_tokens_ofPieces 1 _ (forall_pieces every _)
  · cases h

theorem legible_of_scan {source : String} {stream : TokenStream} (h : scan source = .ok stream) :
    ∀ token ∈ stream.tokens, token.Legible :=
  forall_tokens_of_scan (P := fun kind text => kind = .identifier → Ordinary text)
    (fun c rest _ found name => legible_firstPiece c rest (name ▸ found)) h

/-- **A text that can be read gives a grammatical program, with fresh ids.** -/
theorem parse_made {source : String} {stream : TokenStream} (scanned : scan source = .ok stream)
    (firstId : Id) :
    firstId ≤ (parse stream firstId).nextId ∧
      ∀ program, (parse stream firstId).result = .ok program →
        Made Stmt.idsAll Stmt.GrammaticalAll firstId (parse stream firstId).nextId program := by
  have reads := Parse.reads_declarations (Parse.fuelFor stream.tokens.length) stream.tokens.length
    firstId ⟨stream.tokens, stream.lastLine, firstId, []⟩ rfl (legible_of_scan scanned)
  unfold parse
  dsimp only
  cases hs : Parse.declarations (Parse.fuelFor stream.tokens.length) stream.tokens.length
      ⟨stream.tokens, stream.lastLine, firstId, []⟩ with
  | error stop state =>
    rw [hs] at reads
    exact ⟨reads.2, fun _ h => by cases h⟩
  | ok body state =>
    rw [hs] at reads
    obtain ⟨-, le, made⟩ := reads
    dsimp only
    split
    · exact ⟨le, fun _ h => by cases h; exact made⟩
    · exact ⟨le, fun _ h => by cases h⟩

end Lox
