/-
# Reading makes progress

Readers follow their recipes, which are orderly (`Phrase.suits_recipe`).  Each call that is made in
the course of another has fewer tokens, or a reader of a smaller rank, so that no reader comes back
to itself without having taken a token, and fuel in proportion to the tokens is always enough.

* §1 is about carrying out recipes.
* §2 is about readers, for which enough fuel is the same as no fuel at all (`Phrase.reader_eq`).
* §3 is about the calls in the course of a call, §4 about the loop over declarations.
* §5 has the states that a program is read through, and the main statement,
  `parse_ends_and_progresses`.
-/
import Mathlib.Logic.Relation
import Lox.Proofs.Syntax.Orderly

namespace Lox

namespace Parse

variable {α β : Type}

/-! ## 1. Recipes that are carried out

A recipe is carried out with readers of any kind.  What it comes to depends on what they do, and the
order of the readers on their being faithful. -/

/-- Whether readers go on, and take a token before they give something if they have to. -/
def Faithful (read : (phrase : Phrase) → Parse phrase.Answer) : Prop :=
  ∀ phrase s, match read phrase s with
    | .ok _ t => Grows s t ∧ (phrase.rule.consumes = true → t.rest.length < s.rest.length)
    | .error _ t => Grows s t

namespace Recipe

variable {read : (phrase : Phrase) → Parse phrase.Answer}

/-- Carrying out a recipe comes to what is left of it, in some state. -/
inductive Comes (read : (phrase : Phrase) → Parse phrase.Answer) :
    Recipe α → ParseState → Recipe α → ParseState → Prop
  | here (recipe : Recipe α) (s : ParseState) : Comes read recipe s recipe s
  | act {γ : Type} {action : Act γ} {next : γ → Recipe α} {answer : γ} {left : Recipe α}
      {s t u : ParseState} (done : action.run s = .ok answer t)
      (h : Comes read (next answer) t left u) : Comes read (.act action next) s left u
  | phrase {called : Phrase} {next : called.Answer → Recipe α} {answer : called.Answer}
      {left : Recipe α} {s t u : ParseState} (done : read called s = .ok answer t)
      (h : Comes read (next answer) t left u) : Comes read (.phrase called next) s left u

variable {count : Nat} {rule : Rule} {made : α → Nat → Prop}

/-- What is left of an orderly recipe is orderly. -/
theorem Orderly.comes {recipe left : Recipe α} {s u : ParseState} (faithful : Faithful read)
    (h : Comes read recipe s left u)
    (orderly : recipe.Orderly count rule s.rest.length made) :
    Grows s u ∧ left.Orderly count rule u.rest.length made := by
  induction h with
  | here => exact ⟨.refl _, orderly⟩
  | @act γ action next answer left s t u done _ ih =>
    have step := orderly s rfl
    rw [done] at step
    obtain ⟨grows, orderly⟩ := ih step.2
    exact ⟨step.1.trans grows, orderly⟩
  | @phrase called next answer left s t u done _ ih =>
    have call := faithful called s
    rw [done] at call
    obtain ⟨grows, orderly⟩ := ih (orderly.2 answer _ call.1.length_le call.2)
    exact ⟨call.1.trans grows, orderly⟩

/-- A recipe that begins with an act. -/
theorem run_act (action : Act β) (next : β → Recipe α) (s : ParseState) :
    (Recipe.act action next).run read s =
      match action.run s with
      | .ok answer t => (next answer).run read t
      | .error stop t => .error stop t := by
  change EStateM.bind action.run _ s = _
  unfold EStateM.bind
  cases action.run s <;> rfl

/-- A recipe that calls a reader. -/
theorem run_phrase (called : Phrase) (next : called.Answer → Recipe α) (s : ParseState) :
    (Recipe.phrase called next).run read s =
      match read called s with
      | .ok answer t => (next answer).run read t
      | .error stop t => .error stop t := by
  change EStateM.bind (read called) _ s = _
  unfold EStateM.bind
  cases read called s <;> rfl

/-- To come to what is left of what is left. -/
theorem Comes.trans {recipe left last : Recipe α} {s t u : ParseState}
    (h : Comes read recipe s left t) (h' : Comes read left t last u) :
    Comes read recipe s last u := by
  induction h with
  | here => exact h'
  | act done _ ih => exact .act done (ih h')
  | phrase done _ ih => exact .phrase done (ih h')

/-- What is left gives the same as the whole. -/
theorem Comes.run_eq {recipe left : Recipe α} {s u : ParseState} (h : Comes read recipe s left u) :
    recipe.run read s = left.run read u := by
  induction h with
  | here => rfl
  | act done _ ih => rw [run_act, done, ← ih]
  | phrase done _ ih => rw [run_phrase, done, ← ih]

/-- Reading from a state on ends like this: it is out of fuel only under some condition. -/
def Ends (s : ParseState) (made : α → Nat → Prop) (starved : Prop) :
    EStateM.Result ParseStop ParseState α → Prop
  | .ok answer t => Grows s t ∧ made answer t.rest.length
  | .error stop t => Grows s t ∧ (stop = .outOfFuel → starved)

/-- An end that is reached from a later state is reached from an earlier one. -/
theorem Ends.after {s t : ParseState} {starved : Prop} {result}
    (grows : Grows s t) (h : Ends t made starved result) : Ends s made starved result := by
  cases result with
  | ok answer u => exact ⟨grows.trans h.1, h.2⟩
  | error stop u => exact ⟨grows.trans h.1, h.2⟩

/-- An orderly recipe is carried out, unless a reader that it calls is out of fuel. -/
theorem Orderly.run {recipe : Recipe α} {s : ParseState} (faithful : Faithful read)
    (orderly : recipe.Orderly count rule s.rest.length made) :
    Ends s made (∃ called u v, Descends count rule u.rest.length called.rule ∧
      read called u = .error .outOfFuel v) (recipe.run read s) := by
  induction recipe generalizing s with
  | done answer => exact ⟨.refl s, orderly⟩
  | act action next ih =>
    have step := orderly s rfl
    rw [run_act]
    cases result : action.run s with
    | ok answer t =>
      rw [result] at step
      exact (ih answer step.2).after step.1
    | error stop t =>
      rw [result] at step
      exact ⟨step.1, fun starved => absurd starved step.2⟩
  | phrase called next ih =>
    have call := faithful called s
    rw [run_phrase]
    cases result : read called s with
    | ok answer t =>
      rw [result] at call
      exact (ih answer (orderly.2 answer _ call.1.length_le call.2)).after call.1
    | error stop t =>
      rw [result] at call
      exact ⟨call, fun starved => ⟨called, s, t, orderly.1, starved ▸ result⟩⟩

/-- What a recipe does only depends on the readers that are further down. -/
theorem Orderly.run_congr {read' : (phrase : Phrase) → Parse phrase.Answer} {recipe : Recipe α}
    {s : ParseState} (faithful : Faithful read)
    (same : ∀ called u, Descends count rule u.rest.length called.rule →
      read called u = read' called u)
    (orderly : recipe.Orderly count rule s.rest.length made) :
    recipe.run read s = recipe.run read' s := by
  induction recipe generalizing s with
  | done answer => rfl
  | act action next ih =>
    have step := orderly s rfl
    rw [run_act, run_act]
    cases result : action.run s with
    | ok answer t =>
      rw [result] at step
      exact ih answer step.2
    | error stop t => rfl
  | phrase called next ih =>
    have call := faithful called s
    rw [run_phrase, run_phrase, ← same called s orderly.1]
    cases result : read called s with
    | ok answer t =>
      rw [result] at call
      exact ih answer (orderly.2 answer _ call.1.length_le call.2)
    | error stop t => rfl

end Recipe

/-! ## 2. Readers

The fuel that a reader needs is a number that goes down with each call. -/

namespace Phrase

/-- **Readers go on**, and take a token if they have to. -/
theorem faithful_read (fuel : Nat) : Faithful (read fuel) := by
  induction fuel with
  | zero =>
    intro phrase s
    rw [read_zero]
    exact .refl s
  | succ fuel ih =>
    intro phrase s
    have ends := (phrase.suits_recipe s.rest.length).run ih
    rw [read_succ]
    cases result : phrase.recipe.run (read fuel) s with
    | ok answer t =>
      rw [result] at ends
      exact ends
    | error stop t =>
      rw [result] at ends
      exact ends.1

/-- The fuel that is enough for a reader. -/
def need (phrase : Phrase) (s : ParseState) : Nat := 32 * s.rest.length + phrase.rule.rank + 1

/-- A call that is further down needs less fuel. -/
theorem need_lt {phrase called : Phrase} {s u : ParseState}
    (h : Descends s.rest.length phrase.rule u.rest.length called.rule) :
    called.need u < phrase.need s := by
  have bound := called.rule.rank_lt
  unfold need
  rcases h with fewer | ⟨same, lower⟩ <;> omega

/-- As much fuel as is given to all readers is enough for each of them. -/
theorem need_le (phrase : Phrase) (s : ParseState) : phrase.need s ≤ fuelFor s.rest.length := by
  have bound := phrase.rule.rank_lt
  unfold need fuelFor
  omega

/-- **Fuel that is proportional to the tokens is enough.** -/
theorem read_ne_outOfFuel {fuel : Nat} {phrase : Phrase} {s : ParseState}
    (enough : phrase.need s ≤ fuel) (t : ParseState) :
    phrase.read fuel s ≠ .error .outOfFuel t := by
  induction fuel generalizing phrase s t with
  | zero => cases enough
  | succ fuel ih =>
    intro result
    have ends := (phrase.suits_recipe s.rest.length).run (faithful_read fuel)
    rw [← read_succ, result] at ends
    obtain ⟨called, u, v, lower, starved⟩ := ends.2 rfl
    exact ih (Nat.le_of_lt_succ (Nat.lt_of_lt_of_le (need_lt lower) enough)) v starved

/-- **With enough fuel, it makes no difference how much there is.** -/
theorem read_eq_read {fuel fuel' : Nat} {phrase : Phrase} {s : ParseState}
    (enough : phrase.need s ≤ fuel) (enough' : phrase.need s ≤ fuel') :
    phrase.read fuel s = phrase.read fuel' s := by
  induction fuel generalizing fuel' phrase s with
  | zero => cases enough
  | succ fuel ih =>
    cases fuel' with
    | zero => cases enough'
    | succ fuel' =>
      rw [read_succ, read_succ]
      refine (phrase.suits_recipe s.rest.length).run_congr (faithful_read fuel) ?_
      intro called u lower
      exact ih (Nat.le_of_lt_succ (Nat.lt_of_lt_of_le (need_lt lower) enough))
        (Nat.le_of_lt_succ (Nat.lt_of_lt_of_le (need_lt lower) enough'))

/-- A reader with as much fuel as it needs. -/
def reader (phrase : Phrase) : Parse phrase.Answer := fun s => phrase.read (phrase.need s) s

/-- With enough fuel a reader does not depend on it. -/
theorem read_eq_reader {fuel : Nat} {phrase : Phrase} {s : ParseState}
    (enough : phrase.need s ≤ fuel) : phrase.read fuel s = phrase.reader s :=
  read_eq_read enough (Nat.le_refl _)

/-- With enough fuel, readers go on and never run out of it. -/
theorem faithful_reader : Faithful reader := fun phrase s =>
  faithful_read (phrase.need s) phrase s

/-- **Readers carry out their recipes**, without fuel. -/
theorem reader_eq (phrase : Phrase) : phrase.reader = phrase.recipe.run reader := by
  funext s
  refine (congrFun (read_succ _ phrase) s).trans ?_
  refine (phrase.suits_recipe s.rest.length).run_congr (faithful_read _) fun called u lower => ?_
  exact read_eq_reader (Nat.le_of_lt_succ (need_lt lower))

end Phrase

/-! ## 3. Calls in the course of a call

A call is a reader and a state.  The calls that it makes are those that its recipe comes to. -/

/-- A call of a reader, and the state in which it is made. -/
structure Entry where
  phrase : Phrase
  state : ParseState

namespace Entry

/-- In the course of a call reading comes to what is left of its recipe, in some state. -/
def Comes (a : Entry) (left : Recipe a.phrase.Answer) (s : ParseState) : Prop :=
  Recipe.Comes Phrase.reader a.phrase.recipe a.state left s

/-- In the course of a call another one is made. -/
def Calls (a b : Entry) : Prop := ∃ next, a.Comes (.phrase b.phrase next) b.state

/-- The state in which a call ends. -/
def finish (a : Entry) : ParseState :=
  match a.phrase.reader a.state with
  | .ok _ t => t
  | .error _ t => t

variable {a b : Entry}

/-- What is left of the recipe of a call is orderly from where it stands. -/
theorem Comes.orderly {left : Recipe a.phrase.Answer} {s : ParseState} (h : a.Comes left s) :
    Grows a.state s ∧ left.Orderly a.state.rest.length a.phrase.rule s.rest.length fun _ left =>
      a.phrase.rule.consumes = true → left < a.state.rest.length :=
  (a.phrase.suits_recipe a.state.rest.length).comes Phrase.faithful_reader h

/-- A call goes on to its end from wherever it comes to. -/
theorem Comes.grows_finish {left : Recipe a.phrase.Answer} {s : ParseState} (h : a.Comes left s) :
    Grows s a.finish := by
  have ends := h.orderly.2.run Phrase.faithful_reader
  rw [← h.run_eq, ← Phrase.reader_eq] at ends
  unfold finish
  cases result : a.phrase.reader a.state <;> rw [result] at ends <;> exact ends.1

/-- A call that is made in the course of another one ends before it. -/
theorem Calls.grows_finish (h : a.Calls b) : Grows b.finish a.finish := by
  obtain ⟨next, comes⟩ := h
  cases result : b.phrase.reader b.state with
  | ok answer t =>
    have later : a.Comes (next answer) t := comes.trans (.phrase result (.here _ _))
    have ended : b.finish = t := by rw [Entry.finish, result]
    exact ended ▸ later.grows_finish
  | error stop t =>
    have failed : a.phrase.reader a.state = .error stop t := by
      rw [Phrase.reader_eq, comes.run_eq, Recipe.run_phrase, result]
    rw [Entry.finish, Entry.finish, result, failed]
    exact .refl t

/-- A call has fewer tokens than the one that makes it, or a reader further down. -/
theorem Calls.descends (h : a.Calls b) : Grows a.state b.state ∧
    Descends a.state.rest.length a.phrase.rule b.state.rest.length b.phrase.rule := by
  obtain ⟨next, comes⟩ := h
  exact ⟨comes.orderly.1, comes.orderly.2.1⟩

/-- So it is over any number of calls. -/
theorem descends_of_calls (h : Relation.TransGen Calls a b) : Grows a.state b.state ∧
    Descends a.state.rest.length a.phrase.rule b.state.rest.length b.phrase.rule := by
  induction h with
  | single h => exact h.descends
  | tail _ h ih =>
    obtain ⟨grows, lower⟩ := h.descends
    refine ⟨ih.1.trans grows, ?_⟩
    have := ih.2
    unfold Descends at *
    omega

/-- **No reader comes back to itself without having taken a token.** -/
theorem lt_of_calls (h : Relation.TransGen Calls a b) (same : b.phrase.rule = a.phrase.rule) :
    b.state.rest.length < a.state.rest.length := by
  rcases (descends_of_calls h).2 with fewer | ⟨-, lower⟩
  · exact fewer
  · rw [same] at lower
    exact absurd lower (Nat.lt_irrefl _)

/-- All that is done in the course of a call is done between its beginning and its end. -/
theorem grows_of_calls {left : Recipe b.phrase.Answer} {s : ParseState}
    (h : Relation.ReflTransGen Calls a b) (comes : b.Comes left s) :
    Grows a.state s ∧ Grows s a.finish := by
  induction h using Relation.ReflTransGen.head_induction_on with
  | refl => exact ⟨comes.orderly.1, comes.grows_finish⟩
  | head h _ ih => exact ⟨h.descends.1.trans ih.1, ih.2.trans h.grows_finish⟩

end Entry

/-! ## 4. The loop over declarations

A turn takes at least one token, whether it makes a declaration or an error. -/

/-- What is left behind an error is a rest of the tokens. -/
theorem resumeAfter_suffix (previous : Token) (tokens : List Token) :
    resumeAfter previous tokens <:+ tokens := by
  induction tokens generalizing previous with
  | nil => exact List.suffix_refl _
  | cons token rest ih =>
    rw [resumeAfter]
    split
    · exact List.suffix_refl _
    · exact (ih token).trans (List.suffix_cons token rest)

/-- At least one token is taken on the way. -/
theorem resume_suffix (tokens : List Token) : resume tokens <:+ tokens.tail := by
  cases tokens with
  | nil => exact List.suffix_refl _
  | cons token rest => exact resumeAfter_suffix token rest

/-- A turn of the loop over the declarations of a program: a declaration, or its error and the place
where reading resumes. -/
def turn (fuel : Nat) : Parse (Option Stmt) := fun s =>
  match declaration fuel s with
  | .ok first t => .ok (some first) t
  | .error (.error error) t =>
    .ok none { t with rest := resume t.rest, errors := t.errors ++ [error] }
  | .error .outOfFuel t => .error .outOfFuel t

/-- The loop goes from one state to another in a turn. -/
def Turns (fuel : Nat) (s t : ParseState) : Prop := s.rest ≠ [] ∧ ∃ first, turn fuel s = .ok first t

/-- More tokens are given more fuel. -/
theorem fuelFor_mono {count count' : Nat} (h : count ≤ count') : fuelFor count ≤ fuelFor count' :=
  Nat.mul_le_mul_left 32 (Nat.succ_le_succ h)

variable {fuel : Nat} {s t : ParseState}

/-- The loop takes a turn as long as there are tokens. -/
theorem declarations_succ (turns : Nat) (more : s.rest ≠ []) :
    declarations fuel (turns + 1) s =
      match turn fuel s with
      | .ok first t =>
        match declarations fuel turns t with
        | .ok rest u => .ok (first.toList ++ rest) u
        | .error stop u => .error stop u
      | .error stop t => .error stop t := by
  obtain ⟨_ | ⟨token, rest⟩, lastLine, nextId, errors⟩ := s
  · exact absurd rfl more
  change (match declaration fuel ⟨token :: rest, lastLine, nextId, errors⟩ with
    | .ok first t =>
      match declarations fuel turns t with
      | .ok rest u => .ok (first :: rest) u
      | .error stop u => .error stop u
    | .error (.error error) t =>
      declarations fuel turns { t with rest := resume t.rest, errors := t.errors ++ [error] }
    | .error .outOfFuel t => .error .outOfFuel t : EStateM.Result ..) = _
  rw [turn]
  cases declaration fuel ⟨token :: rest, lastLine, nextId, errors⟩ with
  | ok first t => rfl
  | error stop t =>
    cases stop with
    | outOfFuel => rfl
    | error error =>
      dsimp only
      split <;> simp [*]

theorem declarations_nil (turns : Nat) (last : s.rest = []) :
    declarations fuel turns s = .ok [] s := by
  obtain ⟨rest, lastLine, nextId, errors⟩ := s
  subst last
  cases turns <;> rfl

/-- The fuel of the loop is enough for each declaration. -/
theorem declaration_eq_reader (enough : fuelFor s.rest.length ≤ fuel) :
    declaration fuel s = Phrase.declaration.reader s :=
  Phrase.read_eq_reader (Nat.le_trans (Phrase.declaration.need_le s) enough)

/-- **Every turn takes a token**, even if there is an error at the first one. -/
theorem turn_ok (enough : fuelFor s.rest.length ≤ fuel) (more : s.rest ≠ []) :
    ∃ t, Turns fuel s t ∧ Grows (Entry.mk .declaration s).finish t ∧
      t.rest.length < s.rest.length := by
  have whole := declaration_eq_reader enough
  have faithful := Phrase.faithful_reader .declaration s
  unfold Entry.finish
  cases result : Phrase.declaration.reader s with
  | ok first t =>
    rw [result] at whole faithful
    have turned : turn fuel s = .ok (some first) t := by rw [turn, whole]
    exact ⟨t, ⟨more, some first, turned⟩, .refl t, faithful.2 rfl⟩
  | error stop t =>
    rw [result] at whole faithful
    cases stop with
    | outOfFuel => exact absurd result (Phrase.read_ne_outOfFuel (Nat.le_refl _) t)
    | error error =>
      have turned : turn fuel s =
          .ok none { t with rest := resume t.rest, errors := t.errors ++ [error] } := by
        rw [turn, whole]
      have resumes : resume t.rest <:+ t.rest.tail := resume_suffix t.rest
      have fewer := resumes.length_le
      have fewer' := faithful.length_le
      have pos := List.length_pos_iff.2 more
      rw [List.length_tail] at fewer
      refine ⟨_, ⟨more, none, turned⟩, ⟨?_, rfl, Nat.le_refl _, List.prefix_append _ _⟩, ?_⟩
      · exact resumes.trans (List.tail_suffix _)
      · dsimp only
        omega

/-- A turn ends in one state only. -/
theorem Turns.eq {u : ParseState} (h : Turns fuel s t) (h' : Turns fuel s u) : t = u := by
  obtain ⟨-, first, result⟩ := h
  obtain ⟨-, first', result'⟩ := h'
  cases result.symm.trans result'
  rfl

/-- What is done in a turn is done before its end. -/
theorem Turns.grows_finish (enough : fuelFor s.rest.length ≤ fuel) (h : Turns fuel s t) :
    Grows (Entry.mk .declaration s).finish t := by
  obtain ⟨u, h', grows, -⟩ := turn_ok enough h.1
  exact h.eq h' ▸ grows

theorem Turns.grows (enough : fuelFor s.rest.length ≤ fuel) (h : Turns fuel s t) : Grows s t :=
  (Entry.Comes.grows_finish (a := ⟨.declaration, s⟩) (.here _ _)).trans (h.grows_finish enough)

/-- Any number of turns goes on. -/
theorem grows_of_turns (enough : fuelFor s.rest.length ≤ fuel)
    (h : Relation.ReflTransGen (Turns fuel) s t) : Grows s t := by
  induction h with
  | refl => exact .refl s
  | tail _ turned ih =>
    exact ih.trans (turned.grows (Nat.le_trans (fuelFor_mono ih.length_le) enough))

/-- As many turns as there are tokens take them all. -/
theorem declarations_ok {turns : Nat} (enough : fuelFor s.rest.length ≤ fuel)
    (often : s.rest.length ≤ turns) :
    ∃ program t, declarations fuel turns s = .ok program t ∧
      Relation.ReflTransGen (Turns fuel) s t ∧ t.rest = [] := by
  induction turns generalizing s with
  | zero =>
    have nothing : s.rest = [] := List.length_eq_zero_iff.1 (Nat.le_zero.1 often)
    exact ⟨[], s, declarations_nil 0 nothing, .refl, nothing⟩
  | succ turns ih =>
    by_cases more : s.rest = []
    · exact ⟨[], s, declarations_nil _ more, .refl, more⟩
    · obtain ⟨t, turned, -, fewer⟩ := turn_ok enough more
      obtain ⟨rest, u, later, between, last⟩ :=
        ih (Nat.le_trans (fuelFor_mono (Nat.le_of_lt fewer)) enough)
          (Nat.le_of_lt_succ (Nat.lt_of_lt_of_le fewer often))
      obtain ⟨first, result⟩ := turned.2
      refine ⟨first.toList ++ rest, u, ?_, .head turned between, last⟩
      rw [declarations_succ turns more, result]
      dsimp only
      rw [later]

/-! ## 5. The course of a program

The states in which reading is are those between turns and those in the course of a call. -/

/-- In the course of a program that begins in a state, reading comes to another: between turns, or
in a reader that is called in a turn, directly or through others. -/
inductive Visits (fuel : Nat) (start : ParseState) : ParseState → Prop
  | between {s : ParseState} (turns : Relation.ReflTransGen (Turns fuel) start s) :
      Visits fuel start s
  | within {s u : ParseState} {called : Entry} {left : Recipe called.phrase.Answer}
      (turns : Relation.ReflTransGen (Turns fuel) start s) (more : s.rest ≠ [])
      (calls : Relation.ReflTransGen Entry.Calls ⟨.declaration, s⟩ called)
      (comes : called.Comes left u) : Visits fuel start u

/-- The tokens of a program and the mark at their end. -/
def marked (tokens : List Token) : List (Option Token) := tokens.map some ++ [none]

/-- A cursor at an index of the marked tokens: the next token is the one that is there. -/
structure StandsAt (tokens : List Token) (current : Nat) (s : ParseState) : Prop where
  rest : s.rest = tokens.drop current
  next : (marked tokens)[current]? = some s.rest.head?

/-- The token at an index of the marked tokens is the next one, or the mark at the end. -/
theorem marked_getElem? {tokens : List Token} {current : Nat} (h : current ≤ tokens.length) :
    (marked tokens)[current]? = some (tokens.drop current).head? := by
  rw [List.head?_drop, marked]
  rcases Nat.lt_or_eq_of_le h with inside | rfl
  · rw [List.getElem?_append_left (by simpa using inside)]
    simp [inside]
  · simp

/-- Where a rest of the tokens is left, the cursor stands at an index of the marked tokens. -/
theorem standsAt_of_suffix {tokens : List Token} {s : ParseState} (h : s.rest <:+ tokens) :
    StandsAt tokens (tokens.length - s.rest.length) s := by
  have rest := List.suffix_iff_eq_drop.1 h
  refine ⟨rest, ?_⟩
  rw [marked_getElem? (Nat.sub_le _ _), ← rest]

/-- **Reading goes on** from the beginning to the end by way of every state that it comes to. -/
theorem Visits.grows {start finish u : ParseState} (enough : fuelFor start.rest.length ≤ fuel)
    (all : Relation.ReflTransGen (Turns fuel) start finish) (last : finish.rest = [])
    (h : Visits fuel start u) : Grows start u ∧ Grows u finish := by
  have unique : Relator.RightUnique (Turns fuel) := fun _ _ _ h h' => h.eq h'
  -- the turns from any state on end like the turns from the beginning
  have onwards : ∀ {s}, Relation.ReflTransGen (Turns fuel) start s →
      fuelFor s.rest.length ≤ fuel ∧ Relation.ReflTransGen (Turns fuel) s finish := by
    intro s turns
    refine ⟨Nat.le_trans (fuelFor_mono (grows_of_turns enough turns).length_le) enough, ?_⟩
    rcases Relation.ReflTransGen.total_of_right_unique unique turns all with rest | back
    · exact rest
    · rcases back.cases_head with rfl | ⟨_, ⟨more, -⟩, -⟩
      · exact .refl
      · exact absurd last more
  cases h with
  | between turns =>
    obtain ⟨enough', rest⟩ := onwards turns
    exact ⟨grows_of_turns enough turns, grows_of_turns enough' rest⟩
  | @within s _ called left turns more calls comes =>
    obtain ⟨enough', rest⟩ := onwards turns
    obtain ⟨before, after⟩ := Entry.grows_of_calls calls comes
    obtain ⟨t, turned, grows, fewer⟩ := turn_ok enough' more
    obtain ⟨-, rest'⟩ := onwards (turns.tail turned)
    have enough'' := Nat.le_trans (fuelFor_mono (Nat.le_of_lt fewer)) enough'
    exact ⟨(grows_of_turns enough turns).trans before,
      (after.trans grows).trans (grows_of_turns enough'' rest')⟩

end Parse

open Parse

/-- The state in which a program is read from the beginning. -/
def TokenStream.start (stream : TokenStream) (firstId : Id) : ParseState :=
  ⟨stream.tokens, stream.lastLine, firstId, []⟩

/-- **Reading a program ends and makes progress.**
* It ends at the mark behind the tokens, and gives the program if no error has been recorded, and
  else the errors.
* In every state that it comes to the cursor stands at a token or at the mark, and the errors are
  kept up to the end.
* Every turn of the loop over the declarations takes a token.
* No reader comes back to itself without having taken a token.
* Fuel in proportion to the tokens is enough for every reader, and whatever is enough makes the same
  of them. -/
theorem parse_ends_and_progresses (stream : TokenStream) (firstId : Id) :
    (∃ program finish,
      declarations (fuelFor stream.tokens.length) stream.tokens.length (stream.start firstId) =
        .ok program finish ∧
      Relation.ReflTransGen (Turns (fuelFor stream.tokens.length)) (stream.start firstId) finish ∧
      StandsAt stream.tokens stream.tokens.length finish ∧
      (finish.errors = [] ∧ (parse stream firstId).result = .ok program ∨
        finish.errors ≠ [] ∧ (parse stream firstId).result = .error (.errors finish.errors)) ∧
      ∀ s, Visits (fuelFor stream.tokens.length) (stream.start firstId) s →
        (∃ current ≤ stream.tokens.length, StandsAt stream.tokens current s) ∧
          s.errors <+: finish.errors) ∧
    (∀ s, Relation.ReflTransGen (Turns (fuelFor stream.tokens.length)) (stream.start firstId) s →
      s.rest ≠ [] → ∃ t, Turns (fuelFor stream.tokens.length) s t ∧
        t.rest <:+ s.rest ∧ t.rest.length < s.rest.length) ∧
    (∀ a b, Relation.TransGen Entry.Calls a b →
      b.state.rest <:+ a.state.rest ∧
        (b.phrase.rule = a.phrase.rule → b.state.rest.length < a.state.rest.length)) ∧
    ∀ (phrase : Phrase) s fuel, fuelFor s.rest.length ≤ fuel →
      phrase.read fuel s = phrase.reader s ∧ ∀ t, phrase.read fuel s ≠ .error .outOfFuel t := by
  have enough : fuelFor (stream.start firstId).rest.length ≤ fuelFor stream.tokens.length :=
    Nat.le_refl _
  obtain ⟨program, finish, result, turns, last⟩ := declarations_ok enough (Nat.le_refl _)
  refine ⟨⟨program, finish, result, turns, ?_, ?_, fun s visits => ?_⟩, fun s between more => ?_,
    fun a b calls => ?_, fun phrase s fuel enough => ?_⟩
  · have stands := standsAt_of_suffix (grows_of_turns enough turns).rest
    rwa [last] at stands
  · rw [TokenStream.start] at result
    unfold parse
    dsimp only
    rw [result]
    cases errors : finish.errors with
    | nil => exact .inl ⟨rfl, by simp [errors]⟩
    | cons error more => exact .inr ⟨List.cons_ne_nil _ _, by simp [errors]⟩
  · obtain ⟨before, after⟩ := visits.grows enough turns last
    exact ⟨⟨_, Nat.sub_le _ _, standsAt_of_suffix before.rest⟩, after.errors⟩
  · have enough' := Nat.le_trans (fuelFor_mono (grows_of_turns enough between).length_le) enough
    obtain ⟨t, turned, -, fewer⟩ := turn_ok enough' more
    exact ⟨t, turned, (turned.grows enough').rest, fewer⟩
  · exact ⟨(Entry.descends_of_calls calls).1.rest, Entry.lt_of_calls calls⟩
  · have need := Nat.le_trans (phrase.need_le s) enough
    exact ⟨Phrase.read_eq_reader need, Phrase.read_ne_outOfFuel need⟩

end Lox
