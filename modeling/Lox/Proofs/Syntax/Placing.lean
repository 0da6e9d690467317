/-
# Where errors are recorded

Most of what a reader does records nothing (`Quiet`), and if it fails then at the next token.  There
are three readers that do record something: `expression`, at the `=` behind a target that cannot be
assigned to, and `arguments` and `parameters`, at the next one of which there are too many.  All
three go on to take the token in question.  So once a reader has given something, all that it has
recorded stands at tokens that it has taken (`Phrase.placed_read`).

A reader that fails may have recorded an error at a token that it has not taken: an argument too
many need not be an argument.
-/
import Lox.Proofs.Syntax.Progress

namespace Lox

/-- An error that is reported at a token. -/
def SyntaxError.StandsAt (error : SyntaxError) (token : Token) : Prop :=
  error.line = token.line ∧ error.lexeme = some token.lexeme

namespace Parse

variable {α β : Type} {s t u : ParseState}

/-! ## 1. Acts that record nothing

An act looks at the next token, takes it, or fails at it.  Errors that have been recorded are left
alone by all acts but the two that record one. -/

/-- Nothing is recorded, and if there is a failure, then at the next token. -/
def Passes (s : ParseState) : EStateM.Result ParseStop ParseState α → Prop
  | .ok _ t => Grows s t ∧ t.errors = s.errors
  | .error stop t => (Grows s t ∧ t.errors = s.errors) ∧ ∃ cause, stop = .error (t.errorHere cause)

/-- A reader that records nothing. -/
def Quiet (x : Parse α) : Prop := ∀ s : ParseState, Passes s (x s)

namespace Quiet

theorem pure (answer : α) : Quiet (Pure.pure answer : Parse α) := fun s => ⟨.refl s, rfl⟩

/-- Where neither reader records anything, both together do not. -/
theorem bind {x : Parse β} {f : β → Parse α} (hx : Quiet x) (hf : ∀ answer, Quiet (f answer)) :
    Quiet (x >>= f) := by
  intro s
  have first := hx s
  change Passes s (EStateM.bind x f s)
  unfold EStateM.bind
  cases result : x s with
  | error stop t =>
    rw [result] at first
    exact first
  | ok answer t =>
    rw [result] at first
    have next := hf answer t
    dsimp only
    cases last : f answer t with
    | ok answer' u =>
      rw [last] at next
      exact ⟨first.1.trans next.1, next.2.trans first.2⟩
    | error stop u =>
      rw [last] at next
      exact ⟨⟨first.1.trans next.1.1, next.1.2.trans first.2⟩, next.2⟩

theorem failHere (cause : SyntaxCause) : Quiet (Parse.failHere cause : Parse α) :=
  fun s => ⟨⟨.refl s, rfl⟩, cause, rfl⟩

theorem peek? : Quiet Parse.peek? := fun s => ⟨.refl s, rfl⟩

theorem advance : Quiet Parse.advance := fun _ =>
  ⟨⟨List.tail_suffix _, rfl, Nat.le_refl _, List.prefix_refl _⟩, rfl⟩

/-- A step over a token that gives something. -/
theorem take (answer : α) : Quiet (do Parse.advance; return answer) :=
  .bind advance fun _ => .pure answer

end Quiet

/-- An act that records nothing. -/
@[simp] def Act.IsQuiet : Act α → Prop
  | .record _ | .recordHere _ => False
  | _ => True

/-- One case for each act. -/
theorem Act.IsQuiet.quiet {action : Act α} (h : action.IsQuiet) : Quiet action.run := by
  cases action with
  | peek? => exact .peek?
  | peekKind? => exact .bind .peek? fun _ => .pure _
  | nextIs symbol => exact .bind .peek? fun _ => .pure _
  | atEnd => exact fun s => ⟨.refl s, rfl⟩
  | advance => exact .advance
  | freshId =>
    exact fun _ => ⟨⟨List.suffix_refl _, rfl, Nat.le_succ _, List.prefix_refl _⟩, rfl⟩
  | record error => exact h.elim
  | recordHere cause => exact h.elim
  | fail cause => exact .failHere cause
  | skip symbol =>
    refine .bind (.bind .peek? fun _ => .pure _) fun next => ?_
    split
    · exact .take true
    · exact .pure false
  | expect place =>
    refine .bind .peek? fun next => ?_
    split
    · split
      · exact .take _
      · exact .failHere _
    · exact .failHere _
  | expectName role =>
    refine .bind .peek? fun next => ?_
    split
    · exact .take _
    · exact .failHere _
  | operator? level =>
    refine .bind .peek? fun next => ?_
    split
    · exact .pure none
    · split
      · exact .pure none
      · exact .take _
  | unaryOperator? =>
    refine .bind .peek? fun next => ?_
    split
    · exact .take _
    · exact .take _
    · exact .pure none

/-- A recipe whose own acts record nothing; the readers that it calls may. -/
def Recipe.IsQuiet : Recipe α → Prop
  | done _ => True
  | act action next => action.IsQuiet ∧ ∀ answer, (next answer).IsQuiet
  | phrase _ next => ∀ answer, (next answer).IsQuiet

namespace Recipe.IsQuiet

variable {f : β → Recipe α}

/-- A recipe that goes on with another one. -/
theorem bind {recipe : Recipe β} (h : recipe.IsQuiet) (hf : ∀ answer, (f answer).IsQuiet) :
    (recipe >>= f).IsQuiet := by
  induction recipe with
  | done answer => exact hf answer
  | act action next ih => exact ⟨h.1, fun answer => ih answer (h.2 answer)⟩
  | phrase called next ih => exact fun answer => ih answer (h answer)

theorem map (g : β → α) {recipe : Recipe β} (h : recipe.IsQuiet) : (g <$> recipe).IsQuiet :=
  .bind h fun _ => trivial

/-- A recipe that does nothing records nothing. -/
@[simp] theorem pure_iff (answer : α) : (pure answer : Recipe α).IsQuiet ↔ True := Iff.rfl

@[simp] theorem pure_bind_iff (answer : β) :
    (pure answer >>= f).IsQuiet ↔ (f answer).IsQuiet := Iff.rfl

/-- A recipe that is one act. -/
@[simp] theorem doing_iff (action : Act α) : (doing action).IsQuiet ↔ action.IsQuiet :=
  and_iff_left fun _ => trivial

@[simp] theorem doing_bind_iff (action : Act β) :
    (doing action >>= f).IsQuiet ↔ action.IsQuiet ∧ ∀ answer, (f answer).IsQuiet := Iff.rfl

/-- A recipe that calls a reader has no act of its own. -/
@[simp] theorem reading_iff (called : Phrase) :
    @IsQuiet (no_index called.Answer) (reading called) ↔ True :=
  iff_true_intro fun _ => trivial

@[simp] theorem reading_bind_iff (called : Phrase) {f : called.Answer → Recipe α} :
    @IsQuiet α (no_index (reading called >>= f)) ↔ ∀ answer, (f answer).IsQuiet := Iff.rfl

@[simp] theorem map_bind_iff (g : Expr → β) :
    ((g <$> reading .expression) >>= f).IsQuiet ↔ ∀ answer, (f (g answer)).IsQuiet := Iff.rfl

/-- A recipe that branches. -/
@[simp] theorem ite_iff {p : Prop} [Decidable p] {x y : Recipe α} :
    (if p then x else y).IsQuiet ↔ (p → x.IsQuiet) ∧ (¬ p → y.IsQuiet) := by
  split <;> simp [*]

end Recipe.IsQuiet

/-! ## 2. The recipe of every phrase

There are three readers that record something themselves.  All that the others record they owe to
readers that they call. -/

/-- Whether a reader itself records errors. -/
def Rule.records : Rule → Bool
  | expression | arguments | parameters => true
  | _ => false

namespace Phrase

open Recipe

/-- **All readers but three record nothing themselves.** -/
theorem isQuiet_recipe (phrase : Phrase) (other : phrase.rule.records = false) :
    phrase.recipe.IsQuiet := by
  cases phrase with
  | expression => cases other
  | arguments count => cases other
  | parameters count => cases other
  | ladder level => simp [recipe]
  | operand level => cases tighter : level.tighter? <;> simp [recipe, tighter]
  | ladderRest level left =>
    refine (IsQuiet.doing_bind_iff _).2 ⟨trivial, fun next => ?_⟩
    split <;> simp
  | unary =>
    refine (IsQuiet.doing_bind_iff _).2 ⟨trivial, fun next => ?_⟩
    split <;> simp
  | callRest callee =>
    refine (IsQuiet.doing_bind_iff _).2 ⟨trivial, fun next => ?_⟩
    split <;> simp
  | elements => simp [recipe, seriesRecipe]
  | primary =>
    refine (IsQuiet.doing_bind_iff _).2 ⟨trivial, fun next => ?_⟩
    split
    · simp
    · split <;> simp
  | declaration =>
    refine (IsQuiet.doing_bind_iff _).2 ⟨trivial, fun next => ?_⟩
    split <;> simp [varDeclarationRecipe]
  | classDeclaration => simp [recipe, classDeclarationRecipe]
  | methods => simp [recipe, methodsRecipe]
  | function kind => simp [recipe, functionRecipe]
  | block => simp [recipe, blockRecipe]
  | statement =>
    refine (IsQuiet.doing_bind_iff _).2 ⟨trivial, fun next => ?_⟩
    split <;> simp [expressionStatementRecipe]
  | ifStatement =>
    simp only [recipe, ifStatementRecipe, IsQuiet.doing_bind_iff, IsQuiet.reading_bind_iff]
    refine ⟨trivial, fun _ _ => ⟨trivial, fun _ _ => ⟨trivial, fun next => ?_⟩⟩⟩
    split <;> simp
  | forStatement =>
    simp only [recipe, forStatementRecipe, IsQuiet.doing_bind_iff]
    refine ⟨trivial, fun _ => ⟨trivial, fun next => ?_⟩⟩
    split
    · simp
    · refine (IsQuiet.doing_bind_iff _).2
        ⟨trivial, fun _ => .bind (.map some ?_) fun first => ?_⟩ <;>
        simp [varDeclarationRecipe]
    · refine .bind (.map some ?_) fun first => ?_ <;> simp [expressionStatementRecipe]
  | foreachStatement line =>
    simp only [recipe, foreachStatementRecipe, IsQuiet.doing_bind_iff]
    refine ⟨trivial, fun _ => ⟨trivial, fun next => ?_⟩⟩
    split <;> simp

/-- A series of arguments is read quietly, but for the one that may be too many. -/
theorem isQuiet_arguments (count : Nat) :
    (seriesRecipe (reading .expression) (reading (.arguments count))).IsQuiet := by
  simp [seriesRecipe]

/-- A parameter records nothing by itself. -/
theorem isQuiet_parameters (count : Nat) :
    (seriesRecipe (doing (.expectName .parameter)) (reading (.parameters count))).IsQuiet := by
  simp [seriesRecipe]

end Phrase

/-! ## 3. Errors stand at tokens that are taken

What a reader does is put together of acts and of other readers, and both ends meet: if errors of
the first half stand at its tokens, and those of the second half too, then all do. -/

/-- From one state to another tokens are taken, and what is recorded stands at these tokens. -/
structure Places (s t : ParseState) (taken : List Token) (new : List SyntaxError) : Prop where
  rest : s.rest = taken ++ t.rest
  errors : t.errors = s.errors ++ new
  places : ∀ error ∈ new, ∃ token ∈ taken, error.StandsAt token

/-- Tokens that are taken one after the other, and the errors at them. -/
theorem Places.trans {taken taken' : List Token} {new new' : List SyntaxError}
    (h : Places s t taken new) (h' : Places t u taken' new') :
    Places s u (taken ++ taken') (new ++ new') where
  rest := by rw [h.rest, h'.rest, List.append_assoc]
  errors := by rw [h'.errors, h.errors, List.append_assoc]
  places error mem := by
    rcases List.mem_append.1 mem with mem | mem
    · obtain ⟨token, mem, stands⟩ := h.places error mem
      exact ⟨token, List.mem_append_left _ mem, stands⟩
    · obtain ⟨token, mem, stands⟩ := h'.places error mem
      exact ⟨token, List.mem_append_right _ mem, stands⟩

/-- Where nothing is recorded, there is nothing to show. -/
theorem Grows.places (grows : Grows s t) (same : t.errors = s.errors) :
    ∃ taken, Places s t taken [] := by
  obtain ⟨taken, split⟩ := grows.rest
  exact ⟨taken, split.symm, by rw [same, List.append_nil],
    fun _ mem => absurd mem List.not_mem_nil⟩

/-- Reading from a state on has given something, and all that it has recorded stands at tokens that
it has taken; or it has failed. -/
def Places.InAll (s : ParseState) : EStateM.Result ParseStop ParseState α → Prop
  | .ok _ t => ∃ taken new, Places s t taken new
  | .error .. => True

/-- A reader that records nothing but at tokens that it takes, unless it fails. -/
def Placed (x : Parse α) : Prop := ∀ s : ParseState, Places.InAll s (x s)

namespace Placed

/-- A reader that gives something, and another one from where it stands. -/
theorem bindAt {x : Parse β} {f : β → Parse α} (h : Places.InAll s (x s))
    (next : ∀ answer t, x s = .ok answer t → Places.InAll t (f answer t)) :
    Places.InAll s ((x >>= f) s) := by
  change Places.InAll s (EStateM.bind x f s)
  unfold EStateM.bind
  cases first : x s with
  | error stop t => trivial
  | ok answer t =>
    rw [first] at h
    have later := next answer t first
    dsimp only
    cases last : f answer t with
    | error stop u => trivial
    | ok answer' u =>
      rw [last] at later
      obtain ⟨taken, new, places⟩ := h
      obtain ⟨taken', new', places'⟩ := later
      exact ⟨taken ++ taken', new ++ new', places.trans places'⟩

/-- Readers follow each other. -/
theorem bind {x : Parse β} {f : β → Parse α} (hx : Placed x) (hf : ∀ answer, Placed (f answer)) :
    Placed (x >>= f) := fun s => bindAt (hx s) fun answer t _ => hf answer t

end Placed

/-- A reader that records nothing has no error to place. -/
theorem Quiet.placed {x : Parse α} (h : Quiet x) : Placed x := by
  intro s
  have passes := h s
  cases done : x s with
  | error stop t => trivial
  | ok answer t =>
    rw [done] at passes
    obtain ⟨taken, places⟩ := passes.1.places passes.2
    exact ⟨taken, [], places⟩

/-- All that a quiet recipe records it owes to the readers that it calls. -/
theorem Recipe.IsQuiet.placed {read : (phrase : Phrase) → Parse phrase.Answer}
    (readers : ∀ called, Placed (read called)) {recipe : Recipe α} (h : recipe.IsQuiet) :
    Placed (recipe.run read) := by
  induction recipe with
  | done answer => exact Quiet.placed (.pure answer)
  | act action next ih => exact .bind h.1.quiet.placed fun answer => ih answer (h.2 answer)
  | phrase called next ih => exact .bind (readers called) fun answer => ih answer (h answer)

/-! ## 4. The readers that record something

An error at the next token comes before the token is taken, and so does not stand at a token that
has been taken yet; but an argument or a parameter takes at least one token.  An error at an `=`
comes when the `=` has been taken long since. -/

namespace Phrase

open Recipe

variable {read : (phrase : Phrase) → Parse phrase.Answer}

/-- An error at the next token, and then a recipe that takes it. -/
theorem inAll_checked (readers : ∀ called, Placed (read called)) {passed : Prop}
    [Decidable passed] {cause : SyntaxCause} {recipe : Recipe α} (quiet : recipe.IsQuiet)
    (fewer : ∀ answer t, Recipe.run read (do if passed then doing (.recordHere cause)
                                             recipe) s = .ok answer t →
      t.rest.length < s.rest.length) :
    Places.InAll s (Recipe.run read (do if passed then doing (.recordHere cause)
                                        recipe) s) := by
  split at fewer
  · rw [if_pos ‹_›]
    have later := quiet.placed readers { s with errors := s.errors ++ [s.errorHere cause] }
    change Places.InAll s (recipe.run read { s with errors := s.errors ++ [s.errorHere cause] })
    cases done : recipe.run read { s with errors := s.errors ++ [s.errorHere cause] } with
    | error stop t => trivial
    | ok answer t =>
      rw [done] at later
      obtain ⟨taken, new, places⟩ := later
      have split : s.rest = taken ++ t.rest := places.rest
      cases taken with
      | nil =>
        have same := congrArg List.length split
        exact absurd (fewer answer t done) (Nat.not_lt.2 (Nat.le_of_eq same))
      | cons token taken =>
        have stands : (s.errorHere cause).StandsAt token := by
          rw [ParseState.errorHere, split]
          exact ⟨rfl, rfl⟩
        refine ⟨token :: taken, s.errorHere cause :: new, split, ?_, fun error mem => ?_⟩
        · rw [places.errors, List.append_assoc, List.singleton_append]
        · rcases List.mem_cons.1 mem with rfl | mem
          · exact ⟨token, List.mem_cons_self, stands⟩
          · exact places.places error mem
  · rw [if_neg ‹_›]
    exact quiet.placed readers s

/-- An error at a token, behind a value that is read behind the token. -/
theorem inAll_target {value : Parse Expr} (placed : Placed value) {token : Token}
    {rest : List Token} (here : s.rest = token :: rest) {error : SyntaxError}
    (stands : error.StandsAt token) : Places.InAll s ((do
      Parse.advance
      let e ← value
      Parse.record error
      return e) s) := by
  have read := placed { s with rest := s.rest.tail }
  change Places.InAll s (EStateM.bind value
    (fun e => EStateM.bind (Parse.record error) fun _ => pure e) { s with rest := s.rest.tail })
  unfold EStateM.bind
  cases done : value { s with rest := s.rest.tail } with
  | error stop t => trivial
  | ok e t =>
    rw [done] at read
    obtain ⟨taken, new, places⟩ := read
    have behind : s.rest.tail = taken ++ t.rest := places.rest
    rw [here, List.tail_cons] at behind
    refine ⟨token :: taken, new ++ [error], here.trans (congrArg (token :: ·) behind), ?_,
      fun other mem => ?_⟩
    · exact (congrArg (· ++ [error]) places.errors).trans (List.append_assoc ..)
    · rcases List.mem_append.1 mem with mem | mem
      · obtain ⟨at', mem, stands⟩ := places.places other mem
        exact ⟨at', List.mem_cons_of_mem _ mem, stands⟩
      · rw [List.mem_singleton.1 mem]
        exact ⟨token, List.mem_cons_self, stands⟩

/-- An error at the target of an assignment stands at the `=`, which has been taken. -/
theorem placed_expression (readers : ∀ called, Placed (read called)) :
    Placed (expressionRecipe.run read) := by
  simp only [expressionRecipe, run_bind, run_reading, run_doing, Act.run]
  refine .bind (readers (.ladder .or)) fun (target : Expr) s => ?_
  refine Placed.bindAt (Quiet.placed .peek? s) fun next t looked => ?_
  cases looked
  have value := readers .expression
  split
  · rename_i lexeme line next
    obtain ⟨rest, here⟩ := List.head?_eq_some_iff.1 next
    have advanced := Quiet.placed .advance
    simp only [run_bind, run_reading, run_doing, Act.run]
    cases target
    case «variable» v =>
      have fresh : Quiet freshId := Act.IsQuiet.quiet (show Act.IsQuiet .freshId from trivial)
      exact Placed.bind advanced
        (fun _ => .bind value fun _ => .bind fresh.placed fun _ => Quiet.placed (.pure _)) s
    case get object property =>
      exact Placed.bind advanced (fun _ => .bind value fun _ => Quiet.placed (.pure _)) s
    all_goals exact inAll_target value here ⟨rfl, rfl⟩
  · exact Quiet.placed (.pure target) s

/-- **What readers record stands at tokens that they take**, once they have given something. -/
theorem placed_read (fuel : Nat) (phrase : Phrase) : Placed (phrase.read fuel) := by
  induction fuel generalizing phrase with
  | zero =>
    rw [read_zero]
    exact fun _ => trivial
  | succ fuel ih =>
    -- a reader that gives something has taken a token, if it has to
    have fewer : ∀ (s : ParseState) answer t, phrase.recipe.run (read fuel) s = .ok answer t →
        phrase.rule.consumes = true → t.rest.length < s.rest.length := by
      intro s answer t done
      have faithful := faithful_read (fuel + 1) phrase s
      rw [read_succ, done] at faithful
      exact faithful.2
    rw [read_succ]
    by_cases other : phrase.rule.records = false
    · exact (isQuiet_recipe phrase other).placed ih
    · cases phrase with
      | expression => exact placed_expression ih
      | arguments count =>
        exact fun s => inAll_checked ih (isQuiet_arguments _) fun answer t done =>
          fewer s answer t done rfl
      | parameters count =>
        exact fun s => inAll_checked ih (isQuiet_parameters _) fun answer t done =>
          fewer s answer t done rfl
      | _ => exact absurd rfl other

end Phrase

end Parse

end Lox
