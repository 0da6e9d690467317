/-
# Readers do not look at ids and errors

What a reader does is settled by the tokens.  Of what it has read before, it only looks at what a
target of an assignment is (`Expr.target`); it never looks at an id or at an error that has been
recorded.  So with other ids, and with errors recorded before, it takes the same tokens and records
the same errors (`Phrase.together_read`).

Recipes are compared step by step (`Recipe.Like`), as what is read has other ids in it.
-/
import Lox.Proofs.Syntax.Recipe

namespace Lox

/-- What an expression is as the target of an assignment. -/
inductive Target where
  | name | property | invalid

/-- The target that an expression is. -/
def Expr.target : Expr → Target
  | .variable _ => .name
  | .get .. => .property
  | _ => .invalid

/-- The targets that are variables. -/
theorem Expr.target_eq_name {e : Expr} : e.target = .name ↔ ∃ v, e = .variable v := by
  cases e <;> simp [target]

theorem Expr.target_eq_property {e : Expr} :
    e.target = .property ↔ ∃ object property, e = .get object property := by
  cases e <;> simp [target]

/-- The states are the same, but for the ids and for errors that the first one has recorded
before. -/
structure ParseState.Follows (before : List SyntaxError) (s s' : ParseState) : Prop where
  rest : s.rest = s'.rest
  lastLine : s.lastLine = s'.lastLine
  errors : s.errors = before ++ s'.errors

/-- Where an error is reported depends on the tokens. -/
theorem ParseState.Follows.errorHere {before : List SyntaxError} {s s' : ParseState}
    (h : s.Follows before s') (cause : SyntaxCause) : s.errorHere cause = s'.errorHere cause := by
  rw [ParseState.errorHere, ParseState.errorHere, h.rest, h.lastLine]

namespace Parse

variable {α α' β β' : Type} {before : List SyntaxError}

/-! ## 1. Acts

The two states have the same tokens.  All that differs is what nothing looks at. -/

/-- Two outcomes from such states: what is given is related, and errors are the same. -/
def Outcomes (before : List SyntaxError) (R : α → α' → Prop) :
    EStateM.Result ParseStop ParseState α → EStateM.Result ParseStop ParseState α' → Prop
  | .ok answer t, .ok answer' t' => R answer answer' ∧ t.Follows before t'
  | .error stop t, .error stop' t' => stop = stop' ∧ t.Follows before t'
  | _, _ => False

/-- Two readers do the same in such states. -/
def Together (before : List SyntaxError) (R : α → α' → Prop) (x : Parse α) (x' : Parse α') : Prop :=
  ∀ s s' : ParseState, s.Follows before s' → Outcomes before R (x s) (x' s')

namespace Together

variable {R : α → α' → Prop}

theorem pure {answer : α} {answer' : α'} (h : R answer answer') :
    Together before R (Pure.pure answer) (Pure.pure answer') := fun _ _ follows => ⟨h, follows⟩

/-- What is read first is related, and what follows is compared for related answers. -/
theorem bind {S : β → β' → Prop} {x : Parse β} {x' : Parse β'} {f : β → Parse α}
    {f' : β' → Parse α'} (hx : Together before S x x')
    (hf : ∀ answer answer', S answer answer' → Together before R (f answer) (f' answer')) :
    Together before R (x >>= f) (x' >>= f') := by
  intro s s' follows
  have first := hx s s' follows
  change Outcomes before R (EStateM.bind x f s) (EStateM.bind x' f' s')
  unfold EStateM.bind
  cases result : x s <;> cases result' : x' s' <;> rw [result, result'] at first
  · exact hf _ _ first.1 _ _ first.2
  · exact first.elim
  · exact first.elim
  · exact first

/-- Something is done with the same answer. -/
theorem seen {x : Parse β} {f : β → Parse α} {f' : β → Parse α'} (hx : Together before Eq x x)
    (hf : ∀ answer, Together before R (f answer) (f' answer)) :
    Together before R (x >>= f) (x >>= f') :=
  hx.bind fun answer _ same => same ▸ hf answer

/-- What is looked up in the tokens is the same. -/
theorem look (f : List Token → β) :
    Together before Eq (do let s ← get; return f s.rest : Parse β)
      (do let s ← get; return f s.rest) :=
  fun _ _ follows => ⟨congrArg f follows.rest, follows⟩

/-- Both take the same token. -/
theorem advance : Together before Eq Parse.advance Parse.advance := fun _ _ follows =>
  ⟨rfl, congrArg List.tail follows.rest, follows.lastLine, follows.errors⟩

/-- Both fail with the same error. -/
theorem failHere (cause : SyntaxCause) :
    Together before R (Parse.failHere cause) (Parse.failHere cause) := fun _ _ follows =>
  ⟨congrArg ParseStop.error (follows.errorHere cause), follows⟩

theorem record (error : SyntaxError) :
    Together before Eq (Parse.record error) (Parse.record error) := fun _ _ follows =>
  ⟨rfl, follows.rest, follows.lastLine,
    (congrArg (· ++ [error]) follows.errors).trans (List.append_assoc ..)⟩

theorem recordHere (cause : SyntaxCause) :
    Together before Eq (Parse.recordHere cause) (Parse.recordHere cause) := by
  intro s s' follows
  change Outcomes before Eq (Parse.record (s.errorHere cause) s)
    (Parse.record (s'.errorHere cause) s')
  rw [← follows.errorHere cause]
  exact record _ s s' follows

end Together

/-- How far acts give the same: an id may be any other, and a failure gives nothing. -/
def Act.Like : Act α → α → α → Prop
  | .freshId => fun _ _ => True
  | .fail _ => fun _ _ => False
  | _ => Eq

/-- **Acts do the same.** -/
theorem Act.together (action : Act α) : Together before action.Like action.run action.run := by
  have peek : Together before Eq Parse.peek? Parse.peek? := .look fun rest => rest.head?
  -- the next token is taken, or else is left
  have taken : ∀ {γ : Type} (answer : γ), Together before Eq
      (do Parse.advance; return answer : Parse γ) (do Parse.advance; return answer) :=
    fun _ => .seen .advance fun _ => .pure rfl
  cases action with
  | peek? => exact peek
  | peekKind? => exact .seen peek fun _ => .pure rfl
  | nextIs symbol => exact .seen peek fun _ => .pure rfl
  | atEnd => exact .look fun rest => rest.isEmpty
  | advance => exact .advance
  | freshId => exact fun _ _ follows => ⟨trivial, follows.rest, follows.lastLine, follows.errors⟩
  | record error => exact .record error
  | recordHere cause => exact .recordHere cause
  | fail cause => exact .failHere cause
  | skip symbol =>
    refine .seen (.seen peek fun _ => .pure rfl) fun next => ?_
    split
    · exact taken true
    · exact .pure rfl
  | expect place =>
    refine .seen peek fun next => ?_
    split
    · split
      · exact taken _
      · exact .failHere _
    · exact .failHere _
  | expectName role =>
    refine .seen peek fun next => ?_
    split
    · exact taken _
    · exact .failHere _
  | operator? level =>
    refine .seen peek fun next => ?_
    split
    · exact .pure rfl
    · split
      · exact .pure rfl
      · exact taken _
  | unaryOperator? =>
    refine .seen peek fun next => ?_
    split
    · exact taken _
    · exact taken _
    · exact .pure rfl

/-! ## 2. Recipes

Recipes branch on answers, so two of them go the same way if they only look at what the answers have
in common. -/

namespace Phrase

/-- The target that has been read. -/
def target : (phrase : Phrase) → phrase.Answer → Target
  | expression, answer | ladder _, answer | operand _, answer | ladderRest .., answer
  | unary, answer | callRest _, answer | primary, answer => Expr.target answer
  | _, _ => .invalid

/-- Calls of one reader, after the same targets. -/
inductive Alike : Phrase → Phrase → Prop
  | same (phrase : Phrase) : Alike phrase phrase
  | ladderRest (level : Level) {left left' : Expr} (h : left.target = left'.target) :
      Alike (.ladderRest level left) (.ladderRest level left')
  | callRest {callee callee' : Expr} (h : callee.target = callee'.target) :
      Alike (.callRest callee) (.callRest callee')

end Phrase

/-- Recipes that go the same way after the same answers. -/
inductive Recipe.Like (R : α → α' → Prop) : Recipe α → Recipe α' → Prop
  | done {answer : α} {answer' : α'} (h : R answer answer') : Like R (.done answer) (.done answer')
  | act {γ : Type} {action : Act γ} {next : γ → Recipe α} {next' : γ → Recipe α'}
      (h : ∀ answer answer', action.Like answer answer' → Like R (next answer) (next' answer')) :
      Like R (.act action next) (.act action next')
  | phrase {called called' : Phrase} {next : called.Answer → Recipe α}
      {next' : called'.Answer → Recipe α'} (alike : called.Alike called')
      (h : ∀ answer answer', called.target answer = called'.target answer' →
        Like R (next answer) (next' answer')) :
      Like R (.phrase called next) (.phrase called' next')

/-- Readers give the same targets. -/
def Blind (before : List SyntaxError) (read : (phrase : Phrase) → Parse phrase.Answer) : Prop :=
  ∀ called called' : Phrase, called.Alike called' →
    Together before (fun answer answer' => called.target answer = called'.target answer')
      (read called) (read called')

namespace Recipe.Like

variable {R : α → α' → Prop}

/-- Recipes that go the same way read the same, if the readers that they call do. -/
theorem run {read : (phrase : Phrase) → Parse phrase.Answer} (blind : Blind before read)
    {recipe : Recipe α} {recipe' : Recipe α'} (h : Like R recipe recipe') :
    Together before R (recipe.run read) (recipe'.run read) := by
  induction h with
  | done h => exact .pure h
  | act _ ih => exact .bind (Act.together _) ih
  | phrase alike _ ih => exact .bind (blind _ _ alike) ih

/-- A recipe that goes on with another one. -/
theorem bind {S : β → β' → Prop} {recipe : Recipe β} {recipe' : Recipe β'} {f : β → Recipe α}
    {f' : β' → Recipe α'} (h : Like S recipe recipe')
    (hf : ∀ answer answer', S answer answer' → Like R (f answer) (f' answer')) :
    Like R (recipe >>= f) (recipe' >>= f') := by
  induction h with
  | done h => exact hf _ _ h
  | act _ ih => exact .act ih
  | phrase alike _ ih => exact .phrase alike ih

/-- An act whose answer is the same. -/
theorem seen {action : Act β} {f : β → Recipe α} {f' : β → Recipe α'} (plain : action.Like = Eq)
    (h : ∀ answer, Like R (f answer) (f' answer)) :
    Like R (doing action >>= f) (doing action >>= f') :=
  .act fun answer answer' same => (plain ▸ same : answer = answer') ▸ h answer

/-- A failure gives nothing that would have to be related. -/
theorem fail {R : α → α → Prop} (cause : SyntaxCause) :
    Like R (doing (.fail cause)) (doing (.fail cause)) :=
  .act fun _ _ => False.elim

/-- A recipe that calls a reader looks at no more of what it gives than the target. -/
theorem reading {called : Phrase} {f : called.Answer → Recipe α} {f' : called.Answer → Recipe α'}
    (h : ∀ answer answer', called.target answer = called.target answer' →
      Like R (f answer) (f' answer')) :
    Like R (Recipe.reading called >>= f) (Recipe.reading called >>= f') :=
  .phrase (.same called) h

/-- What is given may be related in a wider sense. -/
theorem mono {S : α → α' → Prop} {recipe : Recipe α} {recipe' : Recipe α'}
    (h : Like S recipe recipe') (le : ∀ answer answer', S answer answer' → R answer answer') :
    Like R recipe recipe' := by
  induction h with
  | done h => exact .done (le _ _ h)
  | act _ ih => exact .act ih
  | phrase alike _ ih => exact .phrase alike ih

/-- A part that is read in one of two ways, and is not looked at. -/
theorem either {p : Prop} [Decidable p] {x y : Recipe β} {x' y' : Recipe β'} {f : β → Recipe α}
    {f' : β' → Recipe α'} (hx : Like (fun _ _ => True) x x') (hy : Like (fun _ _ => True) y y')
    (h : ∀ answer answer', Like R (f answer) (f' answer')) :
    Like R (if p then x >>= f else y >>= f) (if p then x' >>= f' else y' >>= f') := by
  split
  · exact .bind hx fun answer answer' _ => h answer answer'
  · exact .bind hy fun answer answer' _ => h answer answer'

end Recipe.Like

/-! ## 3. The recipe of every phrase

One lemma for each recipe.  Expressions have to keep their targets, and of all other phrases nothing
is looked at. -/

namespace Phrase

open Recipe

/-- A recipe goes the same way, whatever it gives. -/
abbrev Steady (recipe : Recipe α) : Prop := recipe.Like (fun _ _ => True) recipe

theorem steady_done (answer : α) : Steady (.done answer) := .done trivial

/-- To call a reader and hand on what it gives. -/
theorem steady_reading (called : Phrase) : Steady (Recipe.reading called) :=
  .phrase (.same called) fun _ _ _ => .done trivial

theorem steady_map (f : α → β) {recipe : Recipe α} (h : Steady recipe) : Steady (f <$> recipe) :=
  .bind h fun _ _ _ => .done trivial

/-- What is read is given on. -/
theorem like_reading {called called' : Phrase} (alike : called.Alike called') :
    (Recipe.reading called).Like
      (fun answer answer' => called.target answer = called'.target answer')
      (Recipe.reading called') :=
  .phrase alike fun _ _ same => .done same

/-- An assignment looks at the target of what it has read, which is the same. -/
theorem like_expression : expressionRecipe.Like (fun e e' => e.target = e'.target)
    expressionRecipe := by
  refine .reading fun (target target' : Expr) (same : target.target = target'.target) =>
    .seen rfl fun next => ?_
  split
  · refine .seen rfl fun _ => .reading fun (value value' : Expr) sameValue => ?_
    cases kind : target.target with
    | name =>
      obtain ⟨v, rfl⟩ := Expr.target_eq_name.1 kind
      obtain ⟨v', rfl⟩ := Expr.target_eq_name.1 (same ▸ kind)
      exact .act fun _ _ _ => .done rfl
    | property =>
      obtain ⟨object, name, rfl⟩ := Expr.target_eq_property.1 kind
      obtain ⟨object', name', rfl⟩ := Expr.target_eq_property.1 (same ▸ kind)
      exact .done rfl
    | invalid =>
      rw [kind] at same
      split
      · cases kind
      · cases kind
      · split
        · cases same
        · cases same
        · exact .seen rfl fun _ => .done sameValue
  · exact .done same

/-- An operator makes an expression that is no target. -/
theorem like_ladderRest (level : Level) {left left' : Expr} (same : left.target = left'.target) :
    (ladderRestRecipe level left).Like (fun e e' => e.target = e'.target)
      (ladderRestRecipe level left') := by
  refine .seen rfl fun next => ?_
  split
  · exact .done same
  · rename_i op line
    refine .reading fun right right' _ => like_reading (.ladderRest level ?_)
    cases op <;> rfl

theorem like_unary : unaryRecipe.Like (fun e e' => e.target = e'.target) unaryRecipe := by
  refine .seen rfl fun next => ?_
  split
  · exact .reading fun _ _ _ => .done rfl
  · exact .reading fun _ _ same => like_reading (.callRest same)

/-- A property is a target, whatever it is a property of. -/
theorem like_callRest {callee callee' : Expr} (same : callee.target = callee'.target) :
    (callRestRecipe callee).Like (fun e e' => e.target = e'.target) (callRestRecipe callee') := by
  refine .seen rfl fun next => ?_
  split
  · refine .seen rfl fun _ => .seen rfl fun empty =>
      .either (steady_done []) (steady_reading (.arguments 0)) fun _ _ => .seen rfl fun line => ?_
    refine like_reading (.callRest ?_)
    rfl
  · refine .seen rfl fun _ => .seen rfl fun property => like_reading (.callRest ?_)
    rfl
  · exact .done same

theorem steady_series {one : Recipe α} {others : Recipe (List α)} (hone : Steady one)
    (hothers : Steady others) : Steady (seriesRecipe one others) := by
  refine .bind hone fun _ _ _ => .seen rfl fun comma => ?_
  split
  · exact .bind hothers fun _ _ _ => .done trivial
  · exact .done trivial

/-- Before a recipe, an error may be recorded. -/
theorem steady_checked {passed : Prop} [Decidable passed] {cause : SyntaxCause}
    {recipe : Recipe α} (h : Steady recipe) :
    Steady (do if passed then doing (.recordHere cause)
               recipe) := by
  split
  · exact .seen rfl fun _ => h
  · exact h

/-- Which kind of primary expression there is depends on the token. -/
theorem like_primary : primaryRecipe.Like (fun e e' => e.target = e'.target) primaryRecipe := by
  refine .seen rfl fun next => ?_
  split
  · exact .fail _
  · dsimp only
    split
    iterate 5 exact .seen rfl fun _ => .done rfl
    · exact .seen rfl fun _ => .act fun _ _ _ => .done rfl
    · exact .seen rfl fun _ => .act fun _ _ _ => .done rfl
    · exact .seen rfl fun _ => .seen rfl fun _ => .seen rfl fun _ => .act fun _ _ _ => .done rfl
    · exact .seen rfl fun _ => .reading fun _ _ _ => .seen rfl fun _ => .done rfl
    · exact .seen rfl fun _ => .seen rfl fun empty =>
        .either (steady_done []) (steady_reading .elements) fun _ _ => .seen rfl fun _ => .done rfl
    · exact .fail _

theorem steady_varDeclaration : Steady varDeclarationRecipe :=
  .seen rfl fun _ => .seen rfl fun _ =>
    .either (steady_map some (steady_reading .expression)) (steady_done none) fun _ _ =>
      .seen rfl fun _ => .done trivial

theorem steady_expressionStatement : Steady expressionStatementRecipe :=
  .reading fun _ _ _ => .seen rfl fun _ => .done trivial

/-- Which kind of declaration there is depends on the token. -/
theorem steady_declaration : Steady declarationRecipe := by
  refine .seen rfl fun next => ?_
  split
  · exact .seen rfl fun _ => steady_reading .classDeclaration
  · exact .seen rfl fun _ => steady_map _ (steady_reading (.function .function))
  · exact .seen rfl fun _ => steady_varDeclaration
  · exact steady_reading .statement

theorem steady_classDeclaration : Steady classDeclarationRecipe := by
  refine .seen rfl fun name => .seen rfl fun inherits => ?_
  have body : ∀ super super' : Option Variable, Recipe.Like (fun _ _ => True)
      (do let _ ← doing (.expect .beforeClassBody)
          let methods ← Recipe.reading .methods
          let _ ← doing (.expect .afterClassBody)
          return Stmt.classDecl name super methods)
      (do let _ ← doing (.expect .beforeClassBody)
          let methods ← Recipe.reading .methods
          let _ ← doing (.expect .afterClassBody)
          return Stmt.classDecl name super' methods) := fun _ _ =>
    .seen rfl fun _ => .reading fun _ _ _ => .seen rfl fun _ => .done trivial
  split
  · exact .seen rfl fun _ => .act fun _ _ _ => body _ _
  · exact body _ _

theorem steady_methods : Steady methodsRecipe := by
  refine .seen rfl fun brace => .seen rfl fun last => ?_
  split
  · exact .done trivial
  · exact .reading fun _ _ _ => .reading fun _ _ _ => .done trivial

theorem steady_function (kind : FunKind) : Steady (functionRecipe kind) :=
  .seen rfl fun _ => .seen rfl fun _ => .seen rfl fun _ =>
    .either (steady_done []) (steady_reading (.parameters 0)) fun _ _ => .seen rfl fun _ =>
      .seen rfl fun _ => .reading fun _ _ _ => .done trivial

theorem steady_block : Steady blockRecipe := by
  refine .seen rfl fun brace => .seen rfl fun last => ?_
  split
  · exact .seen rfl fun _ => .done trivial
  · exact .reading fun _ _ _ => .reading fun _ _ _ => .done trivial

/-- Which kind of statement there is depends on the token. -/
theorem steady_statement : Steady statementRecipe := by
  refine .seen rfl fun next => ?_
  split
  · exact .seen rfl fun _ => steady_reading .ifStatement
  · exact .seen rfl fun _ => .reading fun _ _ _ => .seen rfl fun _ => .done trivial
  · exact .seen rfl fun _ => .seen rfl fun _ =>
      .either (steady_done none) (steady_map some (steady_reading .expression)) fun _ _ =>
        .seen rfl fun _ => .done trivial
  · exact .seen rfl fun _ => steady_map _ (steady_reading .block)
  · exact .seen rfl fun _ => .seen rfl fun _ => .reading fun _ _ _ => .seen rfl fun _ =>
      .reading fun _ _ _ => .done trivial
  · exact .seen rfl fun _ => steady_reading .forStatement
  · exact .seen rfl fun _ => steady_reading (.foreachStatement _)
  · exact steady_expressionStatement

theorem steady_ifStatement : Steady ifStatementRecipe := by
  refine .seen rfl fun _ => .reading fun _ _ _ => .seen rfl fun _ => .reading fun _ _ _ =>
    .seen rfl fun next => ?_
  split
  · exact .seen rfl fun _ => .reading fun _ _ _ => .done trivial
  · exact .done trivial

/-- The clauses of a `for` loop are there or not, as the tokens say. -/
theorem steady_forStatement : Steady forStatementRecipe := by
  refine .seen rfl fun _ => .seen rfl fun next => ?_
  split
  case' h_1 => refine .seen rfl fun _ => .bind (steady_done none) ?_
  case' h_2 => refine .seen rfl fun _ => .bind (steady_map some steady_varDeclaration) ?_
  case' h_3 => refine .bind (steady_map some steady_expressionStatement) ?_
  -- the other clauses and the body
  all_goals
    refine fun _ _ _ => .seen rfl fun _ =>
      .either (steady_done _) (steady_reading .expression) fun _ _ => .seen rfl fun _ =>
        .seen rfl fun _ => ?_
    exact .either (steady_done none) (steady_map some (steady_reading .expression)) fun _ _ =>
      .seen rfl fun _ => .reading fun _ _ _ => .done trivial

theorem steady_foreachStatement (line : Nat) : Steady (foreachStatementRecipe line) := by
  refine .seen rfl fun _ => .seen rfl fun next => ?_
  split
  case' h_1 => refine .seen rfl fun _ => ?_
  all_goals
    exact .seen rfl fun _ => .seen rfl fun _ => .reading fun _ _ _ => .seen rfl fun _ =>
      .reading fun _ _ _ => .done trivial

/-- **Calls of one reader go the same way**, after the same targets, and give the same targets. -/
theorem like_recipe {called called' : Phrase} (alike : called.Alike called') :
    called.recipe.Like (fun answer answer' => called.target answer = called'.target answer')
      called'.recipe := by
  cases alike with
  | ladderRest level same => exact like_ladderRest level same
  | callRest same => exact like_callRest same
  | same =>
    cases called with
    | expression => exact like_expression
    | ladder level => exact .reading fun _ _ same => like_reading (.ladderRest level same)
    | operand level =>
      cases level
      case product => exact like_reading (.same .unary)
      all_goals exact like_reading (.same (.ladder _))
    | ladderRest level left => exact like_ladderRest level rfl
    | unary => exact like_unary
    | callRest callee => exact like_callRest rfl
    | primary => exact like_primary
    | arguments count =>
      exact (steady_checked (steady_series (steady_reading .expression)
        (steady_reading (.arguments _)))).mono fun _ _ _ => rfl
    | elements =>
      exact (steady_series (steady_reading .expression) (steady_reading .elements)).mono
        fun _ _ _ => rfl
    | parameters count =>
      exact (steady_checked (steady_series (.act fun _ _ _ => .done trivial)
        (steady_reading (.parameters _)))).mono fun _ _ _ => rfl
    | declaration => exact steady_declaration.mono fun _ _ _ => rfl
    | classDeclaration => exact steady_classDeclaration.mono fun _ _ _ => rfl
    | methods => exact steady_methods.mono fun _ _ _ => rfl
    | function kind => exact (steady_function kind).mono fun _ _ _ => rfl
    | block => exact steady_block.mono fun _ _ _ => rfl
    | statement => exact steady_statement.mono fun _ _ _ => rfl
    | ifStatement => exact steady_ifStatement.mono fun _ _ _ => rfl
    | forStatement => exact steady_forStatement.mono fun _ _ _ => rfl
    | foreachStatement line => exact (steady_foreachStatement line).mono fun _ _ _ => rfl

/-- **Readers do the same with other ids, and after other errors.** -/
theorem together_read (before : List SyntaxError) (fuel : Nat) : Blind before (read fuel) := by
  induction fuel with
  | zero =>
    intro called called' _
    rw [read_zero, read_zero]
    exact fun _ _ follows => ⟨rfl, follows⟩
  | succ fuel ih =>
    intro called called' alike
    rw [read_succ, read_succ]
    exact (like_recipe alike).run ih

end Phrase

end Parse

end Lox
