/-
# Recovery from syntax errors

What is reported of a program is what has been recorded up to any turn of the loop over its
declarations, and then what the tokens that are left give on their own (`errors_of_turns`).

A declaration that fails leaves the token that it fails at, and recovery steps over that token
before it looks for the next place where a statement can begin.  So a statement that this token
begins is not read: reading goes on at the next boundary behind its keyword
(`recovery_passes_keyword`).
-/
import Lox.Proofs.Syntax.Blind
import Lox.Proofs.Syntax.Progress

namespace Lox

open Parse

/-- The errors that are reported of a program. -/
def Parsed.errors (parsed : Parsed) : List SyntaxError :=
  match parsed.result with
  | .error (.errors errors) => errors
  | _ => []

namespace Parse

/-! ## 1. Boundaries -/

/-- A statement can begin here, or nothing is left. -/
def IsBoundary (previous : Token) (left : List Token) : Prop :=
  left = [] ∨ previous.isSymbol .semicolon ∨ ∃ token ∈ left.head?, token.startsStatement

/-- Tokens are stepped over after a given one up to the next boundary. -/
inductive SkipsTo : (previous : Token) → (skipped left : List Token) → Prop
  | here {previous : Token} {left : List Token} (boundary : IsBoundary previous left) :
      SkipsTo previous [] left
  | over {previous token : Token} {skipped left : List Token}
      (inside : ¬ IsBoundary previous (token :: (skipped ++ left)))
      (rest : SkipsTo token skipped left) : SkipsTo previous (token :: skipped) left

theorem isBoundary_cons {previous token : Token} {rest : List Token} :
    IsBoundary previous (token :: rest) ↔
      (previous.isSymbol .semicolon || token.startsStatement) = true := by
  simp [IsBoundary]

theorem resumeAfter_skips (previous : Token) (tokens : List Token) :
    ∃ skipped, tokens = skipped ++ resumeAfter previous tokens ∧
      SkipsTo previous skipped (resumeAfter previous tokens) := by
  induction tokens generalizing previous with
  | nil => exact ⟨[], rfl, .here (.inl rfl)⟩
  | cons token rest ih =>
    rw [resumeAfter]
    split
    · rename_i boundary
      exact ⟨[], rfl, .here (isBoundary_cons.2 boundary)⟩
    · rename_i inside
      obtain ⟨skipped, same, skips⟩ := ih token
      refine ⟨token :: skipped, congrArg (token :: ·) same, .over ?_ skips⟩
      rwa [← same, isBoundary_cons]

/-! ## 2. Turns after other errors -/

variable {fuel fuel' : Nat} {before : List SyntaxError} {s s' t t' : ParseState}

theorem Turns.of_fuel (enough : fuelFor s.rest.length ≤ fuel) (enough' : fuelFor s.rest.length ≤ fuel')
    (h : Turns fuel s t) : Turns fuel' s t := by
  obtain ⟨more, first, result⟩ := h
  refine ⟨more, first, ?_⟩
  rw [← result, turn, turn, declaration_eq_reader enough, declaration_eq_reader enough']

/-- **A turn goes the same way with other ids, and after other errors.** -/
theorem Turns.follows (h : Turns fuel s t) (follows : s.Follows before s') :
    ∃ t', Turns fuel s' t' ∧ t.Follows before t' := by
  obtain ⟨more, first, result⟩ := h
  have both := Phrase.together_read before fuel .declaration .declaration (.same _) s s' follows
  change Outcomes before _ (declaration fuel s) (declaration fuel s') at both
  have more' : s'.rest ≠ [] := follows.rest ▸ more
  unfold turn at result
  cases whole : declaration fuel s with
  | ok answer u =>
    rw [whole] at both result
    cases whole' : declaration fuel s' with
    | ok answer' u' =>
      rw [whole'] at both
      cases result
      exact ⟨u', ⟨more', some answer', by rw [turn, whole']⟩, both.2⟩
    | error stop u' =>
      rw [whole'] at both
      exact both.elim
  | error stop u =>
    rw [whole] at both result
    cases whole' : declaration fuel s' with
    | ok answer' u' =>
      rw [whole'] at both
      exact both.elim
    | error stop' u' =>
      rw [whole'] at both
      obtain ⟨rfl, follows'⟩ := both
      cases stop with
      | outOfFuel => cases result
      | error error =>
        cases result
        refine ⟨_, ⟨more', none, by rw [turn, whole']⟩, ?_⟩
        exact ⟨congrArg resume follows'.rest, follows'.lastLine,
          (congrArg (· ++ [error]) follows'.errors).trans (List.append_assoc ..)⟩

theorem follows_of_turns (h : Relation.ReflTransGen (Turns fuel) s t)
    (follows : s.Follows before s') :
    ∃ t', Relation.ReflTransGen (Turns fuel) s' t' ∧ t.Follows before t' := by
  induction h with
  | refl => exact ⟨s', .refl, follows⟩
  | tail _ turned ih =>
    obtain ⟨u', turns', follows'⟩ := ih
    obtain ⟨t', turned', follows''⟩ := turned.follows follows'
    exact ⟨t', turns'.tail turned', follows''⟩

theorem turns_of_fuel (enough : fuelFor s.rest.length ≤ fuel)
    (enough' : fuelFor s.rest.length ≤ fuel') (h : Relation.ReflTransGen (Turns fuel) s t) :
    Relation.ReflTransGen (Turns fuel') s t := by
  induction h with
  | refl => exact .refl
  | tail before turned ih =>
    have fewer := fuelFor_mono (grows_of_turns enough before).length_le
    exact ih.tail (turned.of_fuel (Nat.le_trans fewer enough) (Nat.le_trans fewer enough'))

/-! ## 3. What is reported -/

/-- The errors of a program are those that its last turn leaves. -/
theorem errors_eq_of_turns {stream : TokenStream} {firstId : Id}
    (enough : fuelFor stream.tokens.length ≤ fuel)
    (turns : Relation.ReflTransGen (Turns fuel) (stream.start firstId) t) (last : t.rest = []) :
    (parse stream firstId).errors = t.errors := by
  have turns' := turns_of_fuel enough (Nat.le_refl _) turns
  obtain ⟨program, finish, result, all, last'⟩ :=
    declarations_ok (s := stream.start firstId) (Nat.le_refl _) (Nat.le_refl _)
  -- there is only one state without tokens that the turns come to
  have same : finish = t := by
    have unique : Relator.RightUnique (Turns (fuelFor stream.tokens.length)) :=
      fun _ _ _ h h' => h.eq h'
    rcases Relation.ReflTransGen.total_of_right_unique unique all turns' with rest | rest
    · rcases rest.cases_head with same | ⟨_, ⟨more, -⟩, -⟩
      · exact same
      · exact absurd last' more
    · rcases rest.cases_head with same | ⟨_, ⟨more, -⟩, -⟩
      · exact same.symm
      · exact absurd last more
  subst same
  unfold TokenStream.start at result
  unfold parse Parsed.errors
  dsimp only at result ⊢
  rw [result]
  cases errors : finish.errors with
  | nil => simp [errors]
  | cons error more => simp [errors]

/-- **What is reported of a program** is what has been recorded up to a turn, and then what the
tokens that are left give on their own, with whatever ids. -/
theorem errors_of_turns {stream : TokenStream} {firstId : Id}
    (turns : Relation.ReflTransGen (Turns (fuelFor stream.tokens.length)) (stream.start firstId) s)
    (id : Id) :
    (parse stream firstId).errors = s.errors ++ (parse ⟨s.rest, stream.lastLine⟩ id).errors := by
  have all : fuelFor (stream.start firstId).rest.length ≤ fuelFor stream.tokens.length :=
    Nat.le_refl _
  have grows := grows_of_turns all turns
  have enough : fuelFor s.rest.length ≤ fuelFor stream.tokens.length :=
    fuelFor_mono grows.length_le
  obtain ⟨-, finish, -, rest, last⟩ := declarations_ok enough (Nat.le_refl _)
  have alone : s.Follows s.errors (TokenStream.start ⟨s.rest, stream.lastLine⟩ id) :=
    ⟨rfl, grows.lastLine, (List.append_nil _).symm⟩
  obtain ⟨finish', rest', follows⟩ := follows_of_turns rest alone
  have whole : (parse stream firstId).errors = finish.errors :=
    errors_eq_of_turns all (turns.trans rest) last
  have part : (parse ⟨s.rest, stream.lastLine⟩ id).errors = finish'.errors :=
    errors_eq_of_turns enough rest' (follows.rest.symm.trans last)
  rw [whole, part, follows.errors]

/-- The loop over declarations goes on behind a declaration that fails. -/
theorem turns_of_failure {error : SyntaxError} (more : s.rest ≠ [])
    (failed : declaration fuel s = .error (.error error) t) :
    Turns fuel s { t with rest := resume t.rest, errors := t.errors ++ [error] } :=
  ⟨more, none, by rw [turn, failed]⟩

end Parse

/-- **Recovery passes over the token that a declaration fails at**, even if a statement begins with
it.

* Reading goes on at the next boundary that is strictly behind this token: what is reported is what
  has been recorded, the error, and what the tokens from that boundary on give on their own.
* So what the tokens from the failure on give on their own is reported instead exactly if both give
  the same.
* If one turn at the token that is passed over comes to that boundary as well, then just the errors
  of this turn are lost. -/
theorem recovery_passes_failure (stream : TokenStream) (firstId : Id) {s t : ParseState}
    {error : SyntaxError} {token : Token} {rest : List Token}
    (turns : Relation.ReflTransGen (Turns (fuelFor stream.tokens.length)) (stream.start firstId) s)
    (failed : declaration (fuelFor stream.tokens.length) s = .error (.error error) t)
    (here : t.rest = token :: rest) :
    ∃ skipped left, rest = skipped ++ left ∧ SkipsTo token skipped left ∧
      ∀ id, let alone := fun tokens => (parse ⟨tokens, stream.lastLine⟩ id).errors
        (parse stream firstId).errors = t.errors ++ error :: alone left ∧
        ((parse stream firstId).errors = t.errors ++ error :: alone (token :: rest) ↔
          alone (token :: rest) = alone left) ∧
        ∀ u, Turns (fuelFor (rest.length + 1)) ⟨token :: rest, stream.lastLine, id, []⟩ u →
          u.rest = left → alone (token :: rest) = u.errors ++ alone left := by
  obtain ⟨skipped, split, skips⟩ := resumeAfter_skips token rest
  refine ⟨skipped, _, split, skips, fun id => ?_⟩
  have more : s.rest ≠ [] := by
    have read : Phrase.declaration.read (fuelFor stream.tokens.length) s =
        .error (.error error) t := failed
    have grows := Phrase.faithful_read (fuelFor stream.tokens.length) .declaration s
    rw [read] at grows
    exact fun nothing => by simpa [nothing, here] using grows.rest
  have reported := errors_of_turns (turns.tail (turns_of_failure more failed)) id
  simp only [here, resume, List.append_assoc, List.singleton_append] at reported
  refine ⟨reported, ?_, fun u turned comes => ?_⟩
  · rw [reported, List.append_cancel_left_eq, List.cons.injEq, and_iff_right rfl]
    exact eq_comm
  · let alone : TokenStream := ⟨token :: rest, stream.lastLine⟩
    have first : Turns (fuelFor alone.tokens.length) (alone.start id) u := turned
    exact comes ▸ errors_of_turns (.single first) id

/-- The tokens of `print a print;`. -/
def printBeforePrint : TokenStream :=
  ⟨[⟨.keyword .print, "print", 1⟩, ⟨.identifier, "a", 1⟩, ⟨.keyword .print, "print", 1⟩,
    ⟨.symbol .semicolon, ";", 1⟩], 1⟩

/-- The first statement fails at the keyword of the second. -/
theorem declaration_printBeforePrint :
    declaration (fuelFor printBeforePrint.tokens.length) (printBeforePrint.start 0) =
      .error (.error ⟨1, some "print", .missingMark .afterValue⟩)
        ⟨[⟨.keyword .print, "print", 1⟩, ⟨.symbol .semicolon, ";", 1⟩], 1, 1, []⟩ := rfl

/-- In `print a print;` the second keyword is passed over: what is reported is the missing mark, and
then whatever some later part of the tokens gives. -/
theorem second_print_is_passed_over :
    ∃ skipped left, [⟨.symbol .semicolon, ";", 1⟩] = skipped ++ left ∧
      SkipsTo ⟨.keyword .print, "print", 1⟩ skipped left ∧
      (parse printBeforePrint 0).errors =
        ⟨1, some "print", .missingMark .afterValue⟩ :: (parse ⟨left, 1⟩ 0).errors := by
  obtain ⟨skipped, left, split, skips, reported⟩ :=
    recovery_passes_failure printBeforePrint 0 .refl declaration_printBeforePrint rfl
  exact ⟨skipped, left, split, skips, (reported 0).1⟩

/-- So the statement that begins at the failure is not read: its error is not reported. -/
theorem second_print_is_not_read :
    ¬ ∀ (stream : TokenStream) (firstId : Id) (s t : ParseState) (error : SyntaxError)
        (token : Token) (rest : List Token),
      Relation.ReflTransGen (Turns (fuelFor stream.tokens.length)) (stream.start firstId) s →
      declaration (fuelFor stream.tokens.length) s = .error (.error error) t →
      t.rest = token :: rest → t.rest.length < s.rest.length → token.startsStatement →
        (parse stream firstId).errors =
          t.errors ++ error :: (parse ⟨token :: rest, stream.lastLine⟩ firstId).errors := by
  intro law
  have both : [(⟨1, some "print", .missingMark .afterValue⟩ : SyntaxError)] =
      [⟨1, some "print", .missingMark .afterValue⟩, ⟨1, some ";", .missingExpression⟩] :=
    law printBeforePrint 0 _ _ _ _ _ .refl declaration_printBeforePrint rfl (by decide) rfl
  cases both

end Lox
