/-
# The order of syntax errors

Tokens stand in the order of their lines, and a reader that takes tokens goes down the text.  Most
errors are recorded at the next token, and so below all that have been recorded before.  There is
one exception: whether an expression can be assigned to is looked at when the value behind the `=`
has been read, so that an invalid target is recorded behind the errors of its value.  They stand on
the line of the `=` or below (`InOrder`).

Main statement: `inOrder_of_parse`.
-/
import Lox.Proofs.Syntax.Placing
import Lox.Proofs.Syntax.Joining
import Lox.Proofs.Syntax.Recovery

namespace Lox

/-! ## 1. Errors in order

Which errors are those of a value is not to be seen from the errors alone, and so the order is
relative to the tokens of the text. -/

/-- **The errors of the value of an assignment.**  Somewhere among the tokens there is an `=` with a
value behind it, which ends where the tokens `behind` begin.  The errors are those that reading the
value records, in this order, and each stands at a token of the value. -/
inductive OfValue (stream : TokenStream) : SyntaxError → List SyntaxError → Prop
  | mk {lexeme : String} {line fuel : Nat} {value behind : List Token} {id id' : Id} {e : Expr}
      {inside : List SyntaxError}
      (among : ⟨.symbol .equal, lexeme, line⟩ :: (value ++ behind) <:+ stream.tokens)
      (read : Parse.expression fuel ⟨value ++ behind, stream.lastLine, id, []⟩ =
        .ok e ⟨behind, stream.lastLine, id', inside⟩)
      (places : ∀ error ∈ inside, ∃ token ∈ value, error.StandsAt token) :
      OfValue stream ⟨line, some lexeme, .invalidTarget⟩ inside

/-- **The order in which errors are recorded.**  Each stands on the line of those before it or
below; only an invalid target comes behind the errors of its value, which stand on its line or
below. -/
inductive InOrder (stream : TokenStream) : List SyntaxError → Prop
  | nil : InOrder stream []
  | next {before : List SyntaxError} {error : SyntaxError} (h : InOrder stream before)
      (below : ∀ e ∈ before, e.line ≤ error.line) : InOrder stream (before ++ [error])
  | target {before inside : List SyntaxError} {error : SyntaxError}
      (h : InOrder stream (before ++ inside)) (below : ∀ e ∈ before, e.line ≤ error.line)
      (value : OfValue stream error inside) (lines : ∀ e ∈ inside, error.line ≤ e.line) :
      InOrder stream (before ++ inside ++ [error])

namespace InOrder

variable {stream : TokenStream}

/-- A single error is in order. -/
theorem one (error : SyntaxError) : InOrder stream [error] :=
  .next .nil fun _ mem => absurd mem List.not_mem_nil

/-- Errors in order, and then others in order that all stand below. -/
theorem append {errors errors' : List SyntaxError} (h : InOrder stream errors)
    (h' : InOrder stream errors') (below : ∀ e ∈ errors, ∀ e' ∈ errors', e.line ≤ e'.line) :
    InOrder stream (errors ++ errors') := by
  induction h' with
  | nil => rwa [List.append_nil]
  | @next before error _ later ih =>
    rw [← List.append_assoc]
    refine .next (ih fun e mem e' mem' => below e mem e' (List.mem_append_left _ mem')) ?_
    intro e mem
    rcases List.mem_append.1 mem with mem | mem
    · exact below e mem error (by simp)
    · exact later e mem
  | @target before inside error _ later value lines ih =>
    -- the errors of the value stay the last ones before that of the target
    have whole := ih fun e mem e' mem' => below e mem e' (List.mem_append_left _ mem')
    rw [← List.append_assoc] at whole
    rw [← List.append_assoc, ← List.append_assoc]
    refine .target whole ?_ value lines
    intro e mem
    rcases List.mem_append.1 mem with mem | mem
    · exact below e mem error (by simp)
    · exact later e mem

end InOrder

/-! ## 2. Lines of a reader

The line of a reader is that of its next token.  It goes down the text with the reader, as the
tokens of a text stand in the order of their lines. -/

/-- The tokens stand in the order of their lines, and the end is not above them. -/
def TokenStream.Sorted (stream : TokenStream) : Prop :=
  (stream.tokens.map Token.line ++ [stream.lastLine]).Pairwise (· ≤ ·)

/-- The line of the next token, or of the end of the program. -/
def ParseState.line (s : ParseState) : Nat :=
  match s.rest with
  | [] => s.lastLine
  | token :: _ => token.line

/-- A state that reading the tokens of a stream comes to. -/
structure ParseState.IsOf (stream : TokenStream) (s : ParseState) : Prop where
  rest : s.rest <:+ stream.tokens
  lastLine : s.lastLine = stream.lastLine

/-- An error at the next token is on its line. -/
theorem ParseState.line_errorHere (s : ParseState) (cause : SyntaxCause) :
    (s.errorHere cause).line = s.line := by
  unfold errorHere line
  cases s.rest <;> rfl

/-- What is left of the tokens stands in order too. -/
theorem ParseState.IsOf.sorted {stream : TokenStream} {s : ParseState} (h : s.IsOf stream)
    (sorted : stream.Sorted) : (s.rest.map Token.line ++ [s.lastLine]).Pairwise (· ≤ ·) := by
  obtain ⟨front, split⟩ := h.rest
  rw [TokenStream.Sorted, ← split, List.map_append, List.append_assoc, ← h.lastLine] at sorted
  exact (List.pairwise_append.1 sorted).2.1

namespace Parse

variable {α β : Type} {stream : TokenStream} {s t u : ParseState}

/-- What is left of the tokens is left of the stream. -/
theorem Grows.isOf (h : Grows s t) (of : s.IsOf stream) : t.IsOf stream :=
  ⟨h.rest.trans of.rest, h.lastLine.trans of.lastLine⟩

/-- Reading goes down the text. -/
theorem Grows.line_le (h : Grows s t) (sorted : stream.Sorted) (of : s.IsOf stream) :
    s.line ≤ t.line := by
  obtain ⟨front, split⟩ := h.rest
  have order := of.sorted sorted
  cases front with
  | nil =>
    rw [ParseState.line, ParseState.line, h.lastLine, ← split]
    exact Nat.le_refl _
  | cons token front =>
    have first : s.line = token.line := by rw [ParseState.line, ← split, List.cons_append]
    have later : t.line ∈ front.map Token.line ++ (t.rest.map Token.line ++ [t.lastLine]) := by
      unfold ParseState.line
      cases t.rest <;> simp
    rw [← split, List.cons_append, List.map_cons, List.map_append, List.cons_append,
      List.append_assoc, ← h.lastLine] at order
    exact first ▸ (List.pairwise_cons.1 order).1 _ later

/-- Reading goes on, and what it records comes in order, between the line where it begins and the
line where it ends. -/
structure Adds (stream : TokenStream) (s t : ParseState) : Prop where
  grows : Grows s t
  line : s.line ≤ t.line
  errors : ∃ new, t.errors = s.errors ++ new ∧ InOrder stream new ∧
    ∀ e ∈ new, s.line ≤ e.line ∧ e.line ≤ t.line

namespace Adds

/-- A step that records nothing. -/
theorem silent (sorted : stream.Sorted) (of : s.IsOf stream) (grows : Grows s t)
    (same : t.errors = s.errors) : Adds stream s t :=
  ⟨grows, grows.line_le sorted of, [], by rw [same, List.append_nil], .nil,
    fun _ mem => absurd mem List.not_mem_nil⟩

/-- Errors that are recorded one after the other, further and further down. -/
theorem trans (h : Adds stream s t) (h' : Adds stream t u) : Adds stream s u := by
  obtain ⟨new, errors, inOrder, within⟩ := h.errors
  obtain ⟨new', errors', inOrder', within'⟩ := h'.errors
  refine ⟨h.grows.trans h'.grows, Nat.le_trans h.line h'.line, new ++ new', ?_, ?_, ?_⟩
  · rw [errors', errors, List.append_assoc]
  · exact inOrder.append inOrder' fun e mem e' mem' =>
      Nat.le_trans (within e mem).2 (within' e' mem').1
  · intro e mem
    rcases List.mem_append.1 mem with mem | mem
    · exact ⟨(within e mem).1, Nat.le_trans (within e mem).2 h'.line⟩
    · exact ⟨Nat.le_trans h.line (within' e mem).1, (within' e mem).2⟩

end Adds

/-! ## 3. Readers that record in order

An act, a recipe and a whole reader are tidy one by one: what comes later begins on the line on
which what comes first has ended. -/

/-- Reading from a state on has come to this: if it has failed, then at the next token. -/
def Tidies (stream : TokenStream) (s : ParseState) : EStateM.Result ParseStop ParseState α → Prop
  | .ok _ t => Adds stream s t
  | .error stop t => Adds stream s t ∧ ∀ error, stop = .error error → error.line = t.line

/-- A reader that records in order, wherever it begins among the tokens. -/
def Tidy (stream : TokenStream) (x : Parse α) : Prop :=
  ∀ s : ParseState, s.IsOf stream → Tidies stream s (x s)

/-- A reader that is tidy from a later state on is so from an earlier one. -/
theorem Tidies.after (h : Adds stream s t) {result : EStateM.Result ParseStop ParseState α}
    (h' : Tidies stream t result) : Tidies stream s result := by
  cases result with
  | ok answer u => exact h.trans h'
  | error stop u => exact ⟨h.trans h'.1, h'.2⟩

/-- A reader, and what is read behind it. -/
theorem Tidies.bind {x : Parse β} {f : β → Parse α} (h : Tidies stream s (x s))
    (next : ∀ answer t, x s = .ok answer t → Tidies stream t (f answer t)) :
    Tidies stream s ((x >>= f) s) := by
  change Tidies stream s (EStateM.bind x f s)
  unfold EStateM.bind
  cases first : x s with
  | ok answer t =>
    rw [first] at h
    exact .after h (next answer t first)
  | error stop t =>
    rw [first] at h
    exact h

theorem Tidy.bind {x : Parse β} {f : β → Parse α} (hx : Tidy stream x)
    (hf : ∀ answer, Tidy stream (f answer)) : Tidy stream (x >>= f) := by
  intro s of
  refine (hx s of).bind fun answer t first => hf answer t ?_
  have adds := hx s of
  rw [first] at adds
  exact adds.grows.isOf of

/-- What records nothing fails at the next token, if it fails. -/
theorem Quiet.tidy {x : Parse α} (h : Quiet x) (sorted : stream.Sorted) : Tidy stream x := by
  intro s of
  have passes := h s
  cases result : x s with
  | ok answer t =>
    rw [result] at passes
    exact .silent sorted of passes.1 passes.2
  | error stop t =>
    rw [result] at passes
    refine ⟨.silent sorted of passes.1.1 passes.1.2, fun error same => ?_⟩
    obtain ⟨cause, failed⟩ := passes.2
    cases failed.symm.trans same
    exact t.line_errorHere cause

/-- An error at the next token is below all that has been recorded. -/
theorem tidy_recordHere (cause : SyntaxCause) : Tidy stream (Parse.recordHere cause) := fun s _ =>
  ⟨⟨List.suffix_refl _, rfl, Nat.le_refl _, List.prefix_append _ _⟩, Nat.le_refl _,
    [s.errorHere cause], rfl, .one _, fun e mem => by
      rw [List.mem_singleton.1 mem, s.line_errorHere]
      exact ⟨Nat.le_refl _, Nat.le_refl _⟩⟩

/-- A quiet recipe is tidy if the readers that it calls are. -/
theorem Recipe.IsQuiet.tidy {read : (phrase : Phrase) → Parse phrase.Answer}
    (sorted : stream.Sorted) (readers : ∀ called, Tidy stream (read called))
    {recipe : Recipe α} (h : recipe.IsQuiet) : Tidy stream (recipe.run read) := by
  induction recipe with
  | done answer => exact (Quiet.pure answer).tidy sorted
  | act action next ih => exact .bind (h.1.quiet.tidy sorted) fun answer => ih answer (h.2 answer)
  | phrase called next ih => exact .bind (readers called) fun answer => ih answer (h answer)

/-! ## 4. The readers that record something

An error at the next token comes before all that is read from there on.  At an invalid target it is
otherwise, and the errors in between are those of the value (`ofValue_of_expression`). -/

namespace Phrase

open Recipe

/-- An error at the next token, and then something tidy. -/
theorem tidy_checked {read : (phrase : Phrase) → Parse phrase.Answer} {passed : Prop}
    [Decidable passed] {cause : SyntaxCause} {recipe : Recipe α}
    (h : Tidy stream (recipe.run read)) :
    Tidy stream (Recipe.run read (do if passed then doing (.recordHere cause)
                                     recipe)) := by
  split
  · exact .bind (tidy_recordHere cause) fun _ => h
  · exact h

/-- Errors that have been recorded before make no difference to a value: without them, the reader
records the errors of the value and no others. -/
theorem ofValue_of_expression {fuel : Nat} {lexeme : String} {line : Nat} {rest : List Token}
    (of : s.IsOf stream) (here : s.rest = ⟨.symbol .equal, lexeme, line⟩ :: rest) {e : Expr}
    {inside : List SyntaxError} (errors : t.errors = s.errors ++ inside)
    (done : Parse.expression fuel { s with rest := s.rest.tail } = .ok e t) :
    OfValue stream ⟨line, some lexeme, .invalidTarget⟩ inside := by
  replace done : read fuel .expression { s with rest := s.rest.tail } = .ok e t := done
  have lastLine : t.lastLine = s.lastLine := by
    have faithful := faithful_read fuel .expression { s with rest := s.rest.tail }
    rw [done] at faithful
    exact faithful.1.lastLine
  -- what is read consists of the tokens up to where the reader stops
  have placed := placed_read fuel .expression { s with rest := s.rest.tail }
  rw [done] at placed
  obtain ⟨value, new, split, recorded, places⟩ := placed
  have same : new = inside := List.append_cancel_left (recorded.symm.trans errors)
  subst same
  have behind : rest = value ++ t.rest := by
    have : s.rest.tail = value ++ t.rest := split
    rwa [here, List.tail_cons] at this
  -- the same is read from a state in which nothing has been recorded
  have together := together_read s.errors fuel .expression .expression (.same _)
    { s with rest := s.rest.tail } ⟨value ++ t.rest, s.lastLine, s.nextId, []⟩
    ⟨split, rfl, (List.append_nil _).symm⟩
  rw [done] at together
  cases alone : read fuel .expression ⟨value ++ t.rest, s.lastLine, s.nextId, []⟩ with
  | error stop t' => rw [alone] at together; exact together.elim
  | ok e' t' =>
    rw [alone] at together
    obtain ⟨-, follows⟩ := together
    have errors' : t'.errors = new := List.append_cancel_left (follows.errors.symm.trans errors)
    have final : t' = ⟨t.rest, s.lastLine, t'.nextId, new⟩ := by
      rw [follows.rest, ← lastLine, follows.lastLine, ← errors']
    rw [final] at alone
    refine .mk ?_ (of.lastLine ▸ alone) places
    rw [← behind, ← here]
    exact of.rest

/-- A value that is read behind an `=`, and then an error at the `=`. -/
theorem tidies_target (sorted : stream.Sorted) {fuel : Nat} {lexeme : String} {line : Nat}
    {rest : List Token} (of : s.IsOf stream)
    (here : s.rest = ⟨.symbol .equal, lexeme, line⟩ :: rest)
    (tidy : Tidy stream (Parse.expression fuel)) :
    Tidies stream s ((do
      Parse.advance
      let e ← Parse.expression fuel
      Parse.record ⟨line, some lexeme, .invalidTarget⟩
      return e) s) := by
  have first : s.line = line := by rw [ParseState.line, here]
  have advanced : Adds stream s { s with rest := s.rest.tail } := Quiet.advance.tidy sorted s of
  have read := tidy _ (advanced.grows.isOf of)
  change Tidies stream s (EStateM.bind (Parse.expression fuel)
    (fun e => EStateM.bind (Parse.record ⟨line, some lexeme, .invalidTarget⟩) fun _ => pure e)
    { s with rest := s.rest.tail })
  unfold EStateM.bind
  cases done : Parse.expression fuel { s with rest := s.rest.tail } with
  | error stop t =>
    rw [done] at read
    exact ⟨advanced.trans read.1, read.2⟩
  | ok e t =>
    rw [done] at read
    obtain ⟨grows, below, inside, errors, inOrder, within⟩ := advanced.trans read
    have recorded : Grows t
        { t with errors := t.errors ++ [⟨line, some lexeme, .invalidTarget⟩] } :=
      ⟨List.suffix_refl _, rfl, Nat.le_refl _, List.prefix_append _ _⟩
    refine ⟨grows.trans recorded, below, inside ++ [⟨line, some lexeme, .invalidTarget⟩], ?_, ?_,
      fun e mem => ?_⟩
    · exact (congrArg (· ++ [_]) errors).trans (List.append_assoc ..)
    · have whole : InOrder stream ([] ++ inside) := inOrder
      exact whole.target (fun _ mem => absurd mem List.not_mem_nil)
        (ofValue_of_expression of here errors done) fun e mem => first ▸ (within e mem).1
    · rcases List.mem_append.1 mem with mem | mem
      · exact within e mem
      · rw [List.mem_singleton.1 mem, ← first]
        exact ⟨Nat.le_refl _, below⟩

/-- An assignment records at its target what belongs in front of the errors of its value. -/
theorem tidy_expression (sorted : stream.Sorted) {fuel : Nat}
    (readers : ∀ called, Tidy stream (read fuel called)) :
    Tidy stream (expressionRecipe.run (read fuel)) := by
  simp only [expressionRecipe, run_bind, run_reading, run_doing, Act.run]
  refine .bind (readers (.ladder .or)) fun (target : Expr) s of => ?_
  refine (Quiet.peek?.tidy sorted s of).bind fun next t looked => ?_
  cases looked
  have value : Tidy stream (Parse.expression fuel) := readers .expression
  split
  · rename_i lexeme line next
    obtain ⟨rest, here⟩ := List.head?_eq_some_iff.1 next
    have advanced := Quiet.advance.tidy sorted
    simp only [run_bind, run_reading, run_doing, Act.run]
    cases target
    case «variable» v =>
      have fresh : Quiet freshId := Act.IsQuiet.quiet (show Act.IsQuiet .freshId from trivial)
      exact Tidy.bind advanced (fun _ => .bind value fun _ => .bind (fresh.tidy sorted) fun _ =>
        (Quiet.pure _).tidy sorted) s of
    case get object property =>
      exact Tidy.bind advanced (fun _ => .bind value fun _ => (Quiet.pure _).tidy sorted) s of
    all_goals exact tidies_target sorted of here value
  · exact (Quiet.pure target).tidy sorted s of

/-- **Every reader records in order.** -/
theorem tidy_read (sorted : stream.Sorted) (fuel : Nat) (phrase : Phrase) :
    Tidy stream (phrase.read fuel) := by
  induction fuel generalizing phrase with
  | zero =>
    rw [read_zero]
    exact fun s of => ⟨.silent sorted of (.refl s) rfl, nofun⟩
  | succ fuel ih =>
    rw [read_succ]
    by_cases other : phrase.rule.records = false
    · exact (isQuiet_recipe phrase other).tidy sorted ih
    · cases phrase with
      | expression => exact tidy_expression sorted ih
      | arguments count => exact tidy_checked ((isQuiet_arguments _).tidy sorted ih)
      | parameters count => exact tidy_checked ((isQuiet_parameters _).tidy sorted ih)
      | _ => exact absurd rfl other

end Phrase

/-! ## 5. Programs

The error that ends a declaration is recorded by the loop over declarations, at the token at which
the declaration has been given up.  Where reading resumes is below. -/

variable {fuel : Nat}

/-- A turn of the loop over declarations records in order. -/
theorem Turns.adds (h : Turns fuel s t) (sorted : stream.Sorted) (of : s.IsOf stream) :
    Adds stream s t := by
  obtain ⟨-, first, result⟩ := h
  have read : Tidies stream s (declaration fuel s) :=
    Phrase.tidy_read sorted fuel .declaration s of
  unfold turn at result
  cases whole : declaration fuel s with
  | ok answer u =>
    rw [whole] at read result
    cases result
    exact read
  | error stop u =>
    rw [whole] at read result
    cases stop with
    | outOfFuel => cases result
    | error error =>
      cases result
      have resumes : Grows u { u with rest := resume u.rest, errors := u.errors ++ [error] } :=
        ⟨(resume_suffix _).trans (List.tail_suffix _), rfl, Nat.le_refl _, List.prefix_append _ _⟩
      have below := resumes.line_le sorted (read.1.grows.isOf of)
      refine read.1.trans ⟨resumes, below, [error], rfl, .one error, fun e mem => ?_⟩
      rw [List.mem_singleton.1 mem, read.2 error rfl]
      exact ⟨Nat.le_refl _, below⟩

/-- Over any number of turns, errors are recorded further and further down. -/
theorem adds_of_turns (h : Relation.ReflTransGen (Turns fuel) s t) (sorted : stream.Sorted)
    (of : s.IsOf stream) : Adds stream s t := by
  induction h with
  | refl => exact .silent sorted of (.refl s) rfl
  | tail _ turned ih => exact ih.trans (turned.adds sorted (ih.grows.isOf of))

end Parse

/-- What is scanned on a line and below stands in the order of lines. -/
theorem Scanned.sorted_ofPieces (line : Nat) (found : List Piece) :
    (line :: ((ofPieces line found).tokens.map Token.line ++ [(ofPieces line found).lastLine])
      ).Pairwise (· ≤ ·) := by
  induction found generalizing line with
  | nil => simp [ofPieces]
  | cons piece rest ih =>
    have below := ih (line + piece.text.count '\n')
    have all : ∀ l ∈ (ofPieces (line + piece.text.count '\n') rest).tokens.map Token.line ++
        [(ofPieces (line + piece.text.count '\n') rest).lastLine], line ≤ l := fun l mem =>
      Nat.le_trans (Nat.le_add_right ..) ((List.pairwise_cons.1 below).1 l mem)
    rw [ofPieces]
    cases piece.kind with
    | token kind =>
      refine List.pairwise_cons.2 ⟨fun l mem => ?_, below⟩
      rcases List.mem_cons.1 mem with rfl | mem
      · exact Nat.le_add_right ..
      · exact all l mem
    | _ => exact List.pairwise_cons.2 ⟨all, (List.pairwise_cons.1 below).2⟩

/-- The tokens of a text stand in the order of their lines. -/
theorem sorted_of_scan {source : String} {stream : TokenStream}
    (scanned : scan source = .ok stream) : stream.Sorted := by
  have sorted := Scanned.sorted_ofPieces 1 (pieces source.toList)
  rw [scan_eq_ok scanned] at sorted
  exact (List.pairwise_cons.1 sorted).2

/-- **Syntax errors are reported in order.** -/
theorem inOrder_of_parse {source : String} {stream : TokenStream}
    (scanned : scan source = .ok stream) (firstId : Id) :
    InOrder stream (parse stream firstId).errors := by
  have of : (stream.start firstId).IsOf stream := ⟨List.suffix_refl _, rfl⟩
  obtain ⟨program, finish, -, turns, last⟩ :=
    Parse.declarations_ok (s := stream.start firstId) (Nat.le_refl _) (Nat.le_refl _)
  obtain ⟨new, errors, inOrder, -⟩ :=
    (Parse.adds_of_turns turns (sorted_of_scan scanned) of).errors
  rw [Parse.errors_eq_of_turns (Nat.le_refl _) turns last, errors]
  exact inOrder

end Lox
