/-
# The order of the readers

Readers call each other, and most of them without taking a token first.  Each has a rank
(`Rule.rank`), and until a token has been taken a reader only calls readers of a smaller rank; from
then on it may call any (`Recipe.Orderly.of_lt`).  So all that is to be seen of a recipe is how it
begins.

Main statement: `Phrase.suits_recipe`.
-/
import Lox.Proofs.Syntax.Recipe

namespace Lox.Parse

variable {α β : Type}

/-! ## 1. Steps

A step says how many tokens are left behind it.  That is all that the order of the readers depends
on. -/

/-- Reading goes on: tokens are taken from the front, and ids and errors are added. -/
structure Grows (before after : ParseState) : Prop where
  rest : after.rest <:+ before.rest
  lastLine : after.lastLine = before.lastLine
  nextId : before.nextId ≤ after.nextId
  errors : before.errors <+: after.errors

namespace Grows

variable {s t u : ParseState}

theorem refl (s : ParseState) : Grows s s :=
  ⟨List.suffix_refl _, rfl, Nat.le_refl _, List.prefix_refl _⟩

/-- What has grown twice has grown. -/
theorem trans (h : Grows s t) (h' : Grows t u) : Grows s u :=
  ⟨h'.rest.trans h.rest, h'.lastLine.trans h.lastLine, Nat.le_trans h.nextId h'.nextId,
    h.errors.trans h'.errors⟩

/-- Tokens are only taken. -/
theorem length_le (h : Grows s t) : t.rest.length ≤ s.rest.length := h.rest.length_le

end Grows

/-- What a step has made of its answer and the number of tokens that are left, if there is a number
of tokens at first. -/
def Steps (count : Nat) (action : Parse β) (made : β → Nat → Prop) : Prop :=
  ∀ s : ParseState, s.rest.length = count →
    match action s with
    | .ok answer t => Grows s t ∧ made answer t.rest.length
    | .error stop t => Grows s t ∧ stop ≠ .outOfFuel

namespace Steps

variable {count : Nat} {made : β → Nat → Prop}

theorem pure {answer : β} (h : made answer count) : Steps count (Pure.pure answer) made := by
  rintro s rfl
  exact ⟨.refl s, h⟩

theorem failHere (cause : SyntaxCause) : Steps count (Parse.failHere cause : Parse β) made :=
  fun s _ => ⟨.refl s, nofun⟩

/-- A step, and what is done with its answer and with the tokens left by then. -/
theorem bind {x : Parse α} {f : α → Parse β}
    (h : Steps count x fun answer left => Steps left (f answer) made) :
    Steps count (x >>= f) made := by
  intro s hs
  have hx := h s hs
  change match EStateM.bind x f s with | .ok .. => _ | .error .. => _
  unfold EStateM.bind
  cases first : x s with
  | error stop t =>
    rw [first] at hx
    exact hx
  | ok answer t =>
    rw [first] at hx
    have hf := hx.2 t rfl
    dsimp only
    cases second : f answer t with
    | error stop u =>
      rw [second] at hf
      exact ⟨hx.1.trans hf.1, hf.2⟩
    | ok answer' u =>
      rw [second] at hf
      exact ⟨hx.1.trans hf.1, hf.2⟩

/-- The next token is there if any token is. -/
theorem peek? {made : Option Token → Nat → Prop} (none : count = 0 → made none count)
    (some : ∀ token, 0 < count → made (some token) count) : Steps count Parse.peek? made := by
  rintro s rfl
  refine ⟨.refl s, ?_⟩
  cases h : s.rest with
  | nil =>
    rw [h] at none
    exact none rfl
  | cons token rest =>
    rw [h] at some
    exact some token (Nat.succ_pos _)

/-- A token is next just if there are tokens left. -/
theorem peekKind? {made : Option Kind → Nat → Prop} (none : count = 0 → made none count)
    (some : ∀ kind, 0 < count → made (some kind) count) : Steps count Parse.peekKind? made :=
  .bind (.peek? (fun zero => .pure (none zero)) fun token pos => .pure (some token.kind pos))

theorem nextIs {made : Bool → Nat → Prop} (symbol : Symbol) (h : ∀ found, made found count) :
    Steps count (Parse.nextIs symbol) made := by
  rintro s rfl
  exact ⟨.refl s, h _⟩

theorem atEnd {made : Bool → Nat → Prop} (h : ∀ found, made found count) :
    Steps count Parse.atEnd made := by
  rintro s rfl
  exact ⟨.refl s, h _⟩

/-- One token less, if there is one. -/
theorem advance {made : Unit → Nat → Prop} (h : made () (count - 1)) :
    Steps count Parse.advance made := by
  rintro s rfl
  refine ⟨⟨List.tail_suffix _, rfl, Nat.le_refl _, List.prefix_refl _⟩, ?_⟩
  rw [← List.length_tail] at h
  exact h

theorem freshId {made : Id → Nat → Prop} (h : ∀ id, made id count) :
    Steps count Parse.freshId made := by
  rintro s rfl
  exact ⟨⟨List.suffix_refl _, rfl, Nat.le_succ _, List.prefix_refl _⟩, h _⟩

theorem record {made : Unit → Nat → Prop} (error : SyntaxError) (h : made () count) :
    Steps count (Parse.record error) made := by
  rintro s rfl
  exact ⟨⟨List.suffix_refl _, rfl, Nat.le_refl _, List.prefix_append _ _⟩, h⟩

theorem recordHere {made : Unit → Nat → Prop} (cause : SyntaxCause) (h : made () count) :
    Steps count (Parse.recordHere cause) made := by
  rintro s rfl
  exact record (s.errorHere cause) h s rfl

/-- A step over a token that gives something. -/
theorem take {answer : β} (pos : 0 < count) (h : ∀ left < count, made answer left) :
    Steps count (do Parse.advance; return answer) made :=
  .bind (.advance (.pure (h _ (Nat.sub_lt pos Nat.one_pos))))

/-! Marks, names and operators; a token is taken if there is one. -/

theorem skip {made : Bool → Nat → Prop} (symbol : Symbol) (there : ∀ left < count, made true left)
    (absent : made false count) : Steps count (Parse.skip symbol) made := by
  refine .bind (.bind (.peek? (fun _ => .pure (.pure absent)) fun token pos => .pure ?_))
  split
  · exact .take pos there
  · exact .pure absent

/-- Behind a mark there is a token less. -/
theorem expect {made : Nat → Nat → Prop} (place : Place)
    (h : ∀ line, ∀ left < count, made line left) : Steps count (Parse.expect place) made := by
  refine .bind (.peek? (fun _ => .failHere _) fun token pos => ?_)
  dsimp only
  split
  · exact .take pos (h _)
  · exact .failHere _

theorem expectName {made : Name → Nat → Prop} (role : NameRole)
    (h : ∀ name, ∀ left < count, made name left) : Steps count (Parse.expectName role) made := by
  refine .bind (.peek? (fun _ => .failHere _) fun token pos => ?_)
  split
  · exact .take pos (h _)
  · exact .failHere _

/-- An operator is a token, and the reader stands where it was if there is none. -/
theorem operator? {made : Option (Operator × Nat) → Nat → Prop} (level : Level)
    (there : ∀ found, ∀ left < count, made (some found) left) (absent : made none count) :
    Steps count (Parse.operator? level) made := by
  refine .bind (.peek? (fun _ => .pure absent) fun token pos => ?_)
  dsimp only
  split
  · exact .pure absent
  · exact .take pos (there _)

theorem unaryOperator? {made : Option (UnaryOp × Nat) → Nat → Prop}
    (there : ∀ found, ∀ left < count, made (some found) left) (absent : made none count) :
    Steps count Parse.unaryOperator? made := by
  refine .bind (.peek? (fun _ => .pure absent) fun token pos => ?_)
  split
  · exact .take pos (there _)
  · exact .take pos (there _)
  · exact .pure absent

/-- No act gives tokens back, and none is out of fuel. -/
theorem act (action : Act β) : Steps count action.run fun _ left => left ≤ count := by
  have below : ∀ left < count, left ≤ count := fun _ => Nat.le_of_lt
  cases action with
  | peek? => exact .peek? (fun _ => Nat.le_refl _) fun _ _ => Nat.le_refl _
  | peekKind? => exact .peekKind? (fun _ => Nat.le_refl _) fun _ _ => Nat.le_refl _
  | nextIs symbol => exact .nextIs symbol fun _ => Nat.le_refl _
  | atEnd => exact .atEnd fun _ => Nat.le_refl _
  | advance => exact .advance (Nat.sub_le _ _)
  | skip symbol => exact .skip symbol below (Nat.le_refl _)
  | expect place => exact .expect place fun _ => below
  | expectName role => exact .expectName role fun _ => below
  | operator? level => exact .operator? level (fun _ => below) (Nat.le_refl _)
  | unaryOperator? => exact .unaryOperator? (fun _ => below) (Nat.le_refl _)
  | freshId => exact .freshId fun _ => Nat.le_refl _
  | record error => exact .record error (Nat.le_refl _)
  | recordHere cause => exact .recordHere cause (Nat.le_refl _)
  | fail cause => exact .failHere cause

/-- What is known of the answer may be put in a weaker form. -/
theorem mono {action : Parse β} {made made' : β → Nat → Prop} (hx : Steps count action made)
    (h : ∀ answer left, made answer left → made' answer left) : Steps count action made' := by
  intro s hs
  have hr := hx s hs
  cases result : action s with
  | ok answer t =>
    rw [result] at hr
    exact ⟨hr.1, h _ _ hr.2⟩
  | error stop t =>
    rw [result] at hr
    exact hr

end Steps

/-! ## 2. The order of the readers

The pair of the number of tokens left and the rank goes down with each call, in lexicographic
order. -/

/-- How far a reader is from one that takes a token at once. -/
def Rule.rank : Rule → Nat
  | primary | ladderRest _ | callRest | parameters | classDeclaration | function | ifStatement
  | forStatement | foreachStatement => 0
  | unary | methods => 1
  | operand .product => 2
  | ladder .product => 3
  | operand .sum => 4
  | ladder .sum => 5
  | operand .comparison => 6
  | ladder .comparison => 7
  | operand .equality => 8
  | ladder .equality => 9
  | operand .and => 10
  | ladder .and => 11
  | operand .or => 12
  | ladder .or => 13
  | expression => 14
  | arguments | elements | statement => 15
  | declaration => 16
  | block => 17

/-- Whether a reader takes a token before it gives something. -/
def Rule.consumes : Rule → Bool
  | ladderRest _ | callRest | methods => false
  | _ => true

/-- There are few readers, so few ranks are enough. -/
theorem Rule.rank_lt (rule : Rule) : rule.rank < 32 := by
  unfold Rule.rank
  split <;> decide

/-- There are fewer tokens left, or as many for a reader of a smaller rank. -/
def Descends (count : Nat) (rule : Rule) (left : Nat) (rule' : Rule) : Prop :=
  left < count ∨ left = count ∧ rule'.rank < rule.rank

/-- What is left of a recipe, when there is a number of tokens: each reader that it calls is further
down than a given reader with a given number of tokens.  At the end, something has been made of the
answer and of the number of tokens that are left. -/
def Recipe.Orderly (count : Nat) (rule : Rule) :
    Recipe α → (left : Nat) → (made : α → Nat → Prop) → Prop
  | done answer, left, made => made answer left
  | act action next, left, made =>
    Steps left action.run fun answer left' => (next answer).Orderly count rule left' made
  | phrase called next, left, made =>
    Descends count rule left called.rule ∧ ∀ answer, ∀ left' ≤ left,
      (called.rule.consumes = true → left' < left) →
        (next answer).Orderly count rule left' made

namespace Recipe.Orderly

variable {count : Nat} {rule : Rule} {left : Nat} {made : α → Nat → Prop}

/-- **Once a token has been taken, every reader can be called.** -/
theorem of_lt {recipe : Recipe α} (lt : left < count)
    (h : ∀ answer, ∀ left < count, made answer left) : recipe.Orderly count rule left made := by
  induction recipe generalizing left with
  | done answer => exact h answer left lt
  | act action next ih =>
    exact (Steps.act action).mono fun answer left' le => ih answer (Nat.lt_of_le_of_lt le lt)
  | phrase called next ih =>
    exact ⟨.inl lt, fun answer left' le _ => ih answer (Nat.lt_of_le_of_lt le lt)⟩

/-- A step of a recipe, by what is known of the step. -/
theorem doing_bind {action : Act β} {f : β → Recipe α}
    (h : Steps left action.run fun answer left => (f answer).Orderly count rule left made) :
    (doing action >>= f).Orderly count rule left made := h

/-- Before that, only readers of a smaller rank. -/
theorem reading_bind {called : Phrase} {f : called.Answer → Recipe α}
    (lower : called.rule.rank < rule.rank)
    (h : ∀ answer, ∀ left ≤ count, (called.rule.consumes = true → left < count) →
      (f answer).Orderly count rule left made) :
    (reading called >>= f).Orderly count rule count made :=
  ⟨.inr ⟨rfl, lower⟩, h⟩

/-- A reader may be called if it is further down, and what it gives has taken a token if the reader
does so. -/
theorem reading {called : Phrase} {made : called.Answer → Nat → Prop}
    (lower : called.rule.rank < rule.rank)
    (h : ∀ answer, ∀ left ≤ count, (called.rule.consumes = true → left < count) →
      made answer left) :
    (Recipe.reading called).Orderly count rule count made :=
  ⟨.inr ⟨rfl, lower⟩, h⟩

end Recipe.Orderly

/-! ## 3. The recipe of every phrase

One lemma for each recipe.  Most of them begin with a token, behind which every reader may be
called. -/

/-- A recipe is right for a reader: it is orderly from any number of tokens on, and takes one if the
reader has to. -/
def Recipe.Suits (recipe : Recipe α) (rule : Rule) : Prop :=
  ∀ count, recipe.Orderly count rule count fun _ left => rule.consumes = true → left < count

namespace Phrase

open Recipe

variable {count : Nat} {rule : Rule}

/-- A recipe that has taken a token. -/
theorem orderly_of_lt {left : Nat} (recipe : Recipe α) (lt : left < count) :
    recipe.Orderly count rule left fun _ left => rule.consumes = true → left < count :=
  .of_lt lt fun _ _ lt _ => lt

/-- A recipe that begins with the next token. -/
theorem orderly_advance (f : Unit → Recipe α) (pos : 0 < count) :
    (doing .advance >>= f).Orderly count rule count
      fun _ left => rule.consumes = true → left < count :=
  Steps.advance (orderly_of_lt _ (Nat.sub_lt pos Nat.one_pos))

/-- A recipe that begins with a reader that takes a token. -/
theorem orderly_reading (called : Phrase) (f : called.Answer → Recipe α)
    (lower : called.rule.rank < rule.rank) (consumes : called.rule.consumes = true) :
    (Recipe.reading called >>= f).Orderly count rule count
      fun _ left => rule.consumes = true → left < count :=
  .reading_bind lower fun _ _ _ lt => orderly_of_lt _ (lt consumes)

/-- Before a recipe, an error may be recorded. -/
theorem orderly_checked {passed : Prop} [Decidable passed] {cause : SyntaxCause}
    {recipe : Recipe α} {made : α → Nat → Prop} (h : recipe.Orderly count rule count made) :
    (do if passed then doing (.recordHere cause)
        recipe).Orderly count rule count made := by
  split
  · exact .doing_bind (.recordHere _ h)
  · exact h

theorem suits_expression : expressionRecipe.Suits .expression := fun _ =>
  orderly_reading (.ladder .or) _ (by decide) rfl

/-- A level calls its operand, which has a smaller rank, and then its rest, when a token has been
taken. -/
theorem suits_ladder (level : Level) : (recipe (.ladder level)).Suits (.ladder level) := fun _ =>
  orderly_reading (.operand level) _ (by cases level <;> decide) rfl

/-- An operand calls the next level or a unary expression. -/
theorem suits_operand (level : Level) : (recipe (.operand level)).Suits (.operand level) := by
  intro count
  cases level
  case product => exact .reading (by decide) fun _ _ _ lt _ => lt rfl
  all_goals exact .reading (by decide) fun _ _ _ lt _ => lt rfl

theorem suits_ladderRest (level : Level) (left : Expr) :
    (ladderRestRecipe level left).Suits (.ladderRest level) := fun _ =>
  .doing_bind (.operator? level (fun _ _ lt => orderly_of_lt _ lt) nofun)

theorem suits_unary : unaryRecipe.Suits .unary := fun _ =>
  .doing_bind (.unaryOperator? (fun _ _ lt => orderly_of_lt _ lt)
    (orderly_reading .primary _ (by decide) rfl))

/-- Behind a parenthesis or a dot a token has been taken. -/
theorem suits_callRest (callee : Expr) : (callRestRecipe callee).Suits .callRest := by
  refine fun count => .doing_bind (.peekKind? (fun _ => nofun) fun kind pos => ?_)
  split
  · exact orderly_advance _ pos
  · exact orderly_advance _ pos
  · exact nofun

theorem suits_arguments (count : Nat) : (argumentsRecipe count).Suits .arguments := fun _ =>
  orderly_checked (orderly_reading .expression _ (by decide) rfl)

theorem suits_elements : (recipe .elements).Suits .elements := fun _ =>
  orderly_reading .expression _ (by decide) rfl

/-- What stands in brackets is called behind the opening one. -/
theorem suits_primary : primaryRecipe.Suits .primary := by
  refine fun count => .doing_bind (.peek? (fun _ => .failHere _) fun token pos => ?_)
  dsimp only
  split
  case h_11 => exact Steps.failHere _
  all_goals exact orderly_advance _ pos

theorem suits_parameters (count : Nat) : (parametersRecipe count).Suits .parameters := fun _ =>
  orderly_checked (.doing_bind (.expectName _ fun _ _ lt => orderly_of_lt _ lt))

/-- A declaration takes its word, or it calls a statement, which has a smaller rank. -/
theorem suits_declaration : declarationRecipe.Suits .declaration := by
  have statement : ∀ count, (Recipe.reading .statement).Orderly count .declaration count
      fun _ left => Rule.consumes .declaration = true → left < count :=
    fun _ => .reading (by decide) fun _ _ _ lt _ => lt rfl
  refine fun count => .doing_bind (.peekKind? (fun _ => statement count) fun kind pos => ?_)
  split
  case h_4 => exact statement count
  all_goals exact orderly_advance _ pos

theorem suits_classDeclaration : classDeclarationRecipe.Suits .classDeclaration := fun _ =>
  .doing_bind (.expectName _ fun _ _ lt => orderly_of_lt _ lt)

/-- Methods end at the brace, and otherwise call the reader of functions. -/
theorem suits_methods : methodsRecipe.Suits .methods := by
  refine fun count => .doing_bind (.nextIs _ fun brace => .doing_bind (.atEnd fun last => ?_))
  split
  · exact nofun
  · exact orderly_reading (.function .method) _ (by decide) rfl

theorem suits_function (kind : FunKind) : (functionRecipe kind).Suits .function := fun _ =>
  .doing_bind (.expectName _ fun _ _ lt => orderly_of_lt _ lt)

/-- A block ends at the brace, and otherwise calls the reader of declarations. -/
theorem suits_block : blockRecipe.Suits .block := by
  refine fun count => .doing_bind (.nextIs _ fun brace => .doing_bind (.atEnd fun last => ?_))
  split
  · exact .doing_bind (.expect _ fun _ _ lt => orderly_of_lt _ lt)
  · exact orderly_reading .declaration _ (by decide) rfl

/-- A statement takes its word or its brace, or it calls an expression. -/
theorem suits_statement : statementRecipe.Suits .statement := by
  have evaluation : ∀ count, expressionStatementRecipe.Orderly count .statement count
      fun _ left => Rule.consumes .statement = true → left < count :=
    fun _ => orderly_reading .expression _ (by decide) rfl
  refine fun count => .doing_bind (.peek? (fun _ => evaluation count) fun token pos => ?_)
  split
  case h_8 => exact evaluation count
  all_goals exact orderly_advance _ pos

/-- A recipe that begins with a mark takes a token at once, so nothing else of it matters. -/
theorem suits_expect {place : Place} {f : Nat → Recipe α} :
    (doing (.expect place) >>= f).Suits rule := fun _ =>
  .doing_bind (.expect _ fun _ _ lt => orderly_of_lt _ lt)

/-- **Every recipe is right for its reader.** -/
theorem suits_recipe (phrase : Phrase) : phrase.recipe.Suits phrase.rule := by
  cases phrase with
  | expression => exact suits_expression
  | ladder level => exact suits_ladder level
  | operand level => exact suits_operand level
  | ladderRest level left => exact suits_ladderRest level left
  | unary => exact suits_unary
  | callRest callee => exact suits_callRest callee
  | arguments count => exact suits_arguments count
  | elements => exact suits_elements
  | primary => exact suits_primary
  | parameters count => exact suits_parameters count
  | declaration => exact suits_declaration
  | classDeclaration => exact suits_classDeclaration
  | methods => exact suits_methods
  | function kind => exact suits_function kind
  | block => exact suits_block
  | statement => exact suits_statement
  | ifStatement => exact suits_expect
  | forStatement => exact suits_expect
  | foreachStatement line => exact suits_expect

end Phrase

end Lox.Parse
