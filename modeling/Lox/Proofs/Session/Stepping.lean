/-
# Loops that step an iterator directly

A `foreach` loop steps an instance of a built-in class of iterators directly, and anything else by
calling `hasItems`, `get` and `move`.  Direct stepping does not look at the fields of the iterator,
whereas a call by name would.  So the two agree in a session as long as no field of the iterator
stands in the way when the loop consults it (`Consults`, `State.Unshadowed`).

* `direct_loop_is_protocol`: then both loops visit the same values in the same states, and they
  conclude the same.
* `shadowed_loop_differs`: with a field named `get` they do not.
-/
import Mathlib
import Lox.Proofs.Eval.Fuel
import Lox.Proofs.Eval.Trace
import Lox.Proofs.Session.Scoped

namespace Lox

open Eval

/-! ## 1. Loops, turn by turn

What a loop does is cut up into turns, for each of which it consults its iterator up to three
times. -/

namespace Eval

/-- What a turn of a loop does after it has found that there are items, up to the end of its body;
it gives the value of the variable, and how the body has ended. -/
def turnBody (fuel : Nat) (cursor : Cursor) (line : Nat) (name : Name) (body : Stmt) :
    Eval (Value × Completion) := do
  let scope ← childScope
  let value ← cursorCurrent fuel cursor line
  defineIn scope name.text value
  return (value, ← within scope (exec fuel body))

/-- A loop is a turn, and the loop behind it. -/
theorem forEach_succ (fuel : Nat) (cursor : Cursor) (line : Nat) (name : Name) (body : Stmt) :
    forEach (fuel + 1) cursor line name body = (do
      if ← cursorHasItems fuel cursor line then
        match ← turnBody fuel cursor line name body with
        | (_, .normal) => do
          cursorAdvance fuel cursor line
          forEach fuel cursor line name body
        | (_, .returned value) => return .returned value
      else return .normal) := by
  simp only [forEach, turnBody, bind_assoc, pure_bind]
  refine bind_congr fun hasItems => ?_
  split
  · refine bind_congr fun scope => bind_congr fun value => bind_congr fun _ => ?_
    refine bind_congr fun how => ?_
    cases how <;> rfl
  · rfl

/-- The parts of a turn up to the end of its body. -/
theorem turnBody_eq_ok {fuel : Nat} {cursor : Cursor} {line : Nat} {name : Name} {body : Stmt}
    {s t : State} {value : Value} {completion : Completion}
    (h : turnBody fuel cursor line name body s = .ok (value, completion) t) :
    ∃ s₁, cursorCurrent fuel cursor line
        { s with scopes := (s.scopes.add (some s.scope)).2 } = .ok value s₁ ∧
      within s.scopes.all.size (exec fuel body)
        { s₁ with scopes := s₁.scopes.define s.scopes.all.size name.text value } =
          .ok completion t := by
  obtain ⟨scope, s₀, opened, h⟩ := bind_eq_ok h
  cases opened
  obtain ⟨found, s₁, current, h⟩ := bind_eq_ok h
  obtain ⟨_, s₂, defined, h⟩ := bind_eq_ok h
  cases defined
  obtain ⟨how, s₃, ended, h⟩ := bind_eq_ok h
  cases h
  exact ⟨s₁, current, ended⟩

section Loop

variable (cursor : Cursor) (line : Nat) (name : Name) (body : Stmt)

/-- A turn of a loop that ends normally, with the value that it gives to the variable. -/
def Turn (fuel : Nat) (s : State) (value : Value) (t : State) : Prop :=
  ∃ s₁ s₂, cursorHasItems fuel cursor line s = .ok true s₁ ∧
    turnBody fuel cursor line name body s₁ = .ok (value, .normal) s₂ ∧
    cursorAdvance fuel cursor line s₂ = .ok () t

/-- A loop goes through some turns, with the values that it visits in them. -/
inductive Visits : State → List Value → State → Prop where
  | start (s : State) : Visits s [] s
  | turn {fuel : Nat} {s t u : State} {value : Value} {values : List Value}
      (turn : Turn cursor line name body fuel s value t) (rest : Visits t values u) :
      Visits s (value :: values) u

end Loop

/-- What a loop that begins in a state asks its iterator for, by the name of the method that it
would call, and in which state. -/
inductive Consults (id : InstanceId) (line : Nat) (name : Name) (body : Stmt) (s : State) :
    BuiltinMethod → State → Prop where
  | hasItems {values : List Value} {t : State}
      (visits : Visits (.direct id) line name body s values t) :
      Consults id line name body s .hasItems t
  | get {values : List Value} {t u : State} {scope : ScopeId}
      (visits : Visits (.direct id) line name body s values t)
      (has : iteratorHasItems id line t = .ok true t) (opened : childScope t = .ok scope u) :
      Consults id line name body s .get u
  | move {values : List Value} {t u : State} {fuel : Nat} {value : Value}
      (visits : Visits (.direct id) line name body s values t)
      (has : iteratorHasItems id line t = .ok true t)
      (turn : turnBody fuel (.direct id) line name body t = .ok (value, .normal) u) :
      Consults id line name body s .move u

/-- What a turn later is asked for is asked for. -/
theorem Consults.later {id : InstanceId} {line : Nat} {name : Name} {body : Stmt} {fuel : Nat}
    {s t u : State} {value : Value} {method : BuiltinMethod}
    (turn : Turn (.direct id) line name body fuel s value t)
    (h : Consults id line name body t method u) : Consults id line name body s method u := by
  cases h with
  | hasItems visits => exact .hasItems (.turn turn visits)
  | get visits has opened => exact .get (.turn turn visits) has opened
  | move visits has body => exact .move (.turn turn visits) has body

end Eval

/-! ## 2. Calls by name

A call of a method by its name comes to the method itself if no field hides it, and if there is room
for one more call. -/

/-- No field of an instance hides one of its built-in methods. -/
def State.Unshadowed (s : State) (id : InstanceId) (method : BuiltinMethod) : Prop :=
  ∀ value, s.heap.field? id method.name = some value →
    value = .callable (.bound ⟨id, .builtin method⟩)

/-- The methods that a loop calls. -/
def BuiltinMethod.Steps (method : BuiltinMethod) : Prop :=
  method = .hasItems ∨ method = .get ∨ method = .move

/-- The three methods are those of every class of iterators, and take no arguments. -/
theorem BuiltinClass.IsIterator.method? {kind : BuiltinClass} (h : kind.IsIterator)
    {method : BuiltinMethod} (steps : method.Steps) :
    kind.method? method.name = some method ∧ method.arity = 0 := by
  rcases h with rfl | rfl | rfl <;> rcases steps with rfl | rfl | rfl <;> decide

/-- An iterator whose method is not hidden, with room for a call. -/
structure State.Offers (s : State) (id : InstanceId) (method : BuiltinMethod) : Prop where
  steps : method.Steps
  iterator : ∃ kind, s.heap.class? id = some (.builtin kind) ∧ kind.IsIterator
  unshadowed : s.Unshadowed id method
  room : s.depth < maxDepth

namespace Eval

variable {s : State} {id : InstanceId} {method : BuiltinMethod}

/-- A method that is not hidden is found, and bound. -/
theorem getProperty_of_offers (h : s.Offers id method) (line : Nat) :
    getProperty id method.name line s = .ok (.callable (.bound ⟨id, .builtin method⟩)) s := by
  obtain ⟨kind, hcls, iterates⟩ := h.iterator
  rw [getProperty, look_bind]
  cases hfield : s.heap.field? id method.name with
  | some value =>
    rw [h.unshadowed value hfield]
    rfl
  | none =>
    have found : (s.heap.class? id).bind (·.findMethod? method.name) = some (.builtin method) := by
      rw [hcls, Option.bind_some, Class.findMethod?, (iterates.method? h.steps).1]
      rfl
    rw [found]
    rfl

/-- A call by name is a call of the built-in method. -/
theorem invoke_of_offers (h : s.Offers id method) (fuel line : Nat) :
    invoke (fuel + 4) (.inst id) method.name [] line s =
      nested line (callMethod method id [] line) s := by
  obtain ⟨kind, -, iterates⟩ := h.iterator
  have step : invoke (fuel + 4) (.inst id) method.name [] line =
      (getProperty id method.name line >>= fun f => call (fuel + 3) f [] line) := by
    simp only [invoke]
  rw [step, bind_of_ok (getProperty_of_offers h line)]
  have arity : (Callable.bound ⟨id, .builtin method⟩).arity = ([] : List Value).length :=
    (iterates.method? h.steps).2
  simp only [call, arity, if_true, apply, applyMethod]

/-- The end of a call: one call less is in progress. -/
def endCall {α : Type} : EStateM.Result Interrupt State α → EStateM.Result Interrupt State α
  | .ok value s => .ok value { s with depth := s.depth - 1 }
  | .error interrupt s => .error interrupt { s with depth := s.depth - 1 }

/-- A call that there is room for runs with one more call in progress. -/
theorem nested_of_room {α : Type} {s : State} (room : s.depth < maxDepth) (line : Nat)
    (x : Eval α) :
    nested line x s = endCall (x { s with depth := s.depth + 1 }) := by
  simp only [nested, if_neg (Nat.not_le.2 room)]
  rfl

/-- What asking an iterator gives, by what it is. -/
theorem iteratorHasItems_eq (id : InstanceId) (line : Nat) (s : State) :
    iteratorHasItems id line s =
      match s.heap.iterator? id with
      | some iterator => .ok (s.heap.hasItems iterator) s
      | none => .error (.error ⟨.builtin .uninitialized, line⟩) s := by
  have look : iteratorHasItems id line s = ((match s.heap.iterator? id with
    | some iterator => Pure.pure iterator
    | none => failBuiltin .uninitialized line : Eval Iterator) >>= fun iterator => do
      return (← get).heap.hasItems iterator) s := rfl
  rw [look]
  cases s.heap.iterator? id <;> rfl

/-- Asking an iterator for items changes nothing. -/
theorem iteratorHasItems_same {id : InstanceId} {line : Nat} {s s₁ : State} {has : Bool}
    (h : iteratorHasItems id line s = .ok has s₁) : s₁ = s := by
  rw [iteratorHasItems_eq] at h
  split at h <;> cases h
  rfl

/-- What taking its item gives. -/
theorem iteratorCurrent_eq (id : InstanceId) (line : Nat) (s : State) :
    iteratorCurrent id line s =
      match s.heap.iterator? id with
      | some iterator =>
        match s.heap.current? iterator with
        | some value => .ok value s
        | none => .error (.error ⟨.builtin .exhausted, line⟩) s
      | none => .error (.error ⟨.builtin .uninitialized, line⟩) s := by
  have look : iteratorCurrent id line s = ((match s.heap.iterator? id with
    | some iterator => Pure.pure iterator
    | none => failBuiltin .uninitialized line : Eval Iterator) >>= fun iterator => do
      match (← get).heap.current? iterator with
      | some value => return value
      | none => failBuiltin .exhausted line) s := rfl
  rw [look]
  cases s.heap.iterator? id with
  | none => rfl
  | some iterator =>
    change (match s.heap.current? iterator with
      | some value => Pure.pure value
      | none => failBuiltin .exhausted line : Eval Value) s = _
    cases hcurrent : s.heap.current? iterator <;> simp only [hcurrent] <;> rfl

/-- What moving it gives. -/
theorem iteratorAdvance_eq (id : InstanceId) (line : Nat) (s : State) :
    iteratorAdvance id line s =
      match s.heap.iterator? id with
      | some iterator =>
        .ok () { s with heap := s.heap.setPayload id (.iterator (s.heap.advance iterator)) }
      | none => .error (.error ⟨.builtin .uninitialized, line⟩) s := by
  have look : iteratorAdvance id line s = ((match s.heap.iterator? id with
    | some iterator => Pure.pure iterator
    | none => failBuiltin .uninitialized line : Eval Iterator) >>= fun iterator =>
      modifyHeap fun heap => heap.setPayload id (.iterator (heap.advance iterator))) s := rfl
  rw [look]
  cases s.heap.iterator? id <;> rfl

end Eval

/-! ## 3. Cursors at an iterator

A cursor steps the iterator directly or calls its methods.  Where nothing hides them the two do the
same. -/

/-- A cursor at an instance, of either kind. -/
def Cursor.At (cursor : Cursor) (id : InstanceId) : Prop :=
  cursor = .direct id ∨ cursor = .protocol (.inst id)

namespace Eval

variable {s : State} {id : InstanceId} {cursor : Cursor}

/-- A call by name runs the built-in method with one more call in progress. -/
theorem invoke_eq_endCall {method : BuiltinMethod} (h : s.Offers id method) (fuel line : Nat) :
    invoke (fuel + 4) (.inst id) method.name [] line s =
      endCall (callMethod method id [] line { s with depth := s.depth + 1 }) := by
  rw [invoke_of_offers h, nested_of_room h.room]

/-- With enough fuel for a call, both kinds of cursors ask the iterator itself. -/
theorem cursorHasItems_of_offers (h : s.Offers id .hasItems) (at_ : cursor.At id)
    (fuel line : Nat) :
    cursorHasItems (fuel + 5) cursor line s = iteratorHasItems id line s := by
  rcases at_ with rfl | rfl
  · simp only [cursorHasItems]
  · have step : cursorHasItems (fuel + 5) (.protocol (.inst id)) line =
        (invoke (fuel + 4) (.inst id) BuiltinMethod.hasItems.name [] line >>= fun value =>
          pure value.isTruthy) := by
      simp only [cursorHasItems, BuiltinMethod.name]
    have does : callMethod .hasItems id [] line { s with depth := s.depth + 1 } =
        EStateM.bind (iteratorHasItems id line) (fun hasItems => pure (.boolean hasItems))
          { s with depth := s.depth + 1 } := rfl
    rw [step]
    change EStateM.bind (invoke (fuel + 4) (.inst id) _ [] line) _ s = _
    unfold EStateM.bind at does ⊢
    rw [iteratorHasItems_eq] at does ⊢
    rw [invoke_eq_endCall h, does]
    dsimp only
    cases s.heap.iterator? id <;> rfl

theorem cursorCurrent_of_offers (h : s.Offers id .get) (at_ : cursor.At id) (fuel line : Nat) :
    cursorCurrent (fuel + 5) cursor line s = iteratorCurrent id line s := by
  rcases at_ with rfl | rfl
  · simp only [cursorCurrent]
  · have step : cursorCurrent (fuel + 5) (.protocol (.inst id)) line =
        invoke (fuel + 4) (.inst id) BuiltinMethod.get.name [] line := by
      simp only [cursorCurrent, BuiltinMethod.name]
    have does : callMethod .get id [] line { s with depth := s.depth + 1 } =
        iteratorCurrent id line { s with depth := s.depth + 1 } := rfl
    rw [iteratorCurrent_eq] at does ⊢
    rw [step, invoke_eq_endCall h, does]
    dsimp only
    cases s.heap.iterator? id with
    | none => rfl
    | some iterator =>
      dsimp only
      cases s.heap.current? iterator <;> rfl

theorem cursorAdvance_of_offers (h : s.Offers id .move) (at_ : cursor.At id) (fuel line : Nat) :
    cursorAdvance (fuel + 5) cursor line s = iteratorAdvance id line s := by
  rcases at_ with rfl | rfl
  · simp only [cursorAdvance]
  · have step : cursorAdvance (fuel + 5) (.protocol (.inst id)) line =
        (invoke (fuel + 4) (.inst id) BuiltinMethod.move.name [] line >>= fun _ => pure ()) := by
      simp only [cursorAdvance, BuiltinMethod.name]
    have does : callMethod .move id [] line { s with depth := s.depth + 1 } =
        EStateM.bind (iteratorAdvance id line) (fun _ => pure .nil)
          { s with depth := s.depth + 1 } := rfl
    rw [step]
    change EStateM.bind (invoke (fuel + 4) (.inst id) _ [] line) _ s = _
    unfold EStateM.bind at does ⊢
    rw [iteratorAdvance_eq] at does ⊢
    rw [invoke_eq_endCall h, does]
    dsimp only
    cases s.heap.iterator? id <;> rfl

end Eval

/-! ## 4. Loops whose iterator is not hidden

The hypothesis is about the states in which the loop consults its iterator, and so it has to be
carried along with the loop. -/

/-- A loop over an iterator that has begun in a run goes on so with any other fuel. -/
theorem Past.Begun.refuel {past earlier : Past} {fuel : Nat} {id : InstanceId} {line : Nat}
    {name : Name} {body : Stmt} {s : State} {stack : List StaticScope}
    (h : past.Begun fuel (.forEach (.direct id) line name body) s earlier stack) (fuel' : Nat) :
    ∃ wider, Past.Begun wider fuel' (.forEach (.direct id) line name body) s wider stack := by
  let wider : Past := ⟨earlier.programs, fun m => earlier.moments m ∨
    Moment.Reaches (.begins fuel' (.forEach (.direct id) line name body) s) m⟩
  have before : earlier.Before wider := ⟨fun _ hp => hp, fun _ hm => Or.inl hm⟩
  obtain ⟨ready, branch, sound, room⟩ := h.expects
  refine ⟨wider, .refl wider, fun m m' hm next => ?_, Or.inr .refl, ready.later before rfl, branch,
    sound, room⟩
  rcases hm with hm | reaches
  · exact Or.inl (h.closed m m' hm next)
  · exact Or.inr (reaches.tail next)

/-- A loop over an iterator has begun in a run, and no field of the iterator stands in the way when
the loop consults it. -/
structure Clear (id : InstanceId) (line : Nat) (name : Name) (body : Stmt) (s : State) : Prop where
  begun : ∃ past earlier fuel stack,
    Past.Begun past fuel (.forEach (.direct id) line name body) s earlier stack
  unshadowed : ∀ method t, Consults id line name body s method t → t.Unshadowed id method

/-- Where a turn leaves the current scope and the number of calls. -/
theorem Eval.Keeps.turnBody (fuel : Nat) (cursor : Cursor) (line : Nat) (name : Name)
    (body : Stmt) : Keeps (Eval.turnBody fuel cursor line name body) :=
  .bind (.bind .get fun _ => .newScope _) fun scope =>
    .bind (Task.keeps_run fuel (.cursorCurrent cursor line)) fun _ => .bind (.defineIn _ _ _)
      fun _ => .bind (Frame.keeps_around (Task.keeps_run fuel (.exec body)) (.scope scope))
        fun _ => .pure _

namespace Clear

variable {id : InstanceId} {line : Nat} {name : Name} {body : Stmt} {s t u : State} {fuel : Nat}
  {value : Value}

/-- At the beginning of a turn the loop asks whether there are items. -/
theorem hasItems (h : Clear id line name body s) : s.Offers id .hasItems := by
  obtain ⟨_, _, _, _, begun⟩ := h.begun
  obtain ⟨-, -, iterator, room⟩ := begun.expects
  exact ⟨Or.inl rfl, iterator, h.unshadowed _ _ (.hasItems (.start s)), room⟩

/-- If there are, it takes one, in the scope of the turn. -/
theorem get (h : Clear id line name body s) (has : iteratorHasItems id line s = .ok true s)
    {scope : ScopeId} (opened : childScope s = .ok scope u) : u.Offers id .get := by
  obtain ⟨-, iterator, -, room⟩ := h.hasItems
  have unshadowed := h.unshadowed _ _ (.get (.start s) has opened)
  cases opened
  exact ⟨Or.inr (Or.inl rfl), iterator, unshadowed, room⟩

/-- Behind the body of a turn the iterator can be stepped, and the loop goes on in the same way. -/
theorem turn (h : Clear id line name body s) (has : iteratorHasItems id line s = .ok true s)
    (ended : turnBody fuel (.direct id) line name body s = .ok (value, .normal) t) :
    t.Offers id .move ∧ ∀ u, iteratorAdvance id line t = .ok () u → Clear id line name body u := by
  obtain ⟨s₁, current, executed⟩ := turnBody_eq_ok ended
  obtain ⟨fuel, rfl⟩ : ∃ less, fuel = less + 1 := by
    cases fuel with
    | zero =>
      simp only [cursorCurrent] at current
      cases current
    | succ fuel => exact ⟨fuel, rfl⟩
  obtain ⟨_, _, _, _, begun⟩ := h.begun
  obtain ⟨past, begun⟩ := begun.refuel (fuel + 1 + 1)
  have asked : cursorHasItems (fuel + 1) (.direct id) line s = .ok true s := by
    simpa only [cursorHasItems] using has
  obtain ⟨_, advancing⟩ := begun.next (.cursorAdvance (.direct id) line) t
    (.call asked (.act rfl (.act rfl (.call current (.act rfl (.call executed (.begins rfl)))))))
  have place := Keeps.turnBody (fuel + 1) (.direct id) line name body s
  rw [ended] at place
  refine ⟨⟨Or.inr (Or.inr rfl), advancing.expects.2, h.unshadowed _ _ (.move (.start s) has ended),
    Nat.lt_of_le_of_lt (Nat.le_of_eq place.depth) h.hasItems.room⟩, fun u advanced => ?_⟩
  have stepped : cursorAdvance (fuel + 1) (.direct id) line t = .ok () u := by
    simpa only [cursorAdvance] using advanced
  obtain ⟨_, again⟩ := begun.next (.forEach (.direct id) line name body) u
    (.call asked (.act rfl (.act rfl (.call current (.act rfl (.call executed (.call stepped
      (.begins rfl))))))))
  exact ⟨⟨_, _, _, _, again⟩, fun method t' consults =>
    h.unshadowed method t' (.later ⟨s, t, asked, ended, stepped⟩ consults)⟩

/-! ## 5. The two kinds of loops

The loop that calls methods needs more fuel, so the two are compared by what they come to with
enough of it. -/

variable {cursor cursor' : Cursor} (at_ : cursor.At id) (at_' : cursor'.At id)

include at_ at_'

/-- What the direct loop finds out, the other one does with a little more fuel. -/
theorem hasItems_approximates (h : Clear id line name body s) (fuel : Nat) :
    Approximates (cursorHasItems fuel cursor line) (cursorHasItems (fuel + 5) cursor' line) s :=
  (Task.approximates_run (Nat.le_add_right fuel 5) (.cursorHasItems cursor line) s).trans
    (.of_eq ((cursorHasItems_of_offers h.hasItems at_ fuel line).trans
      (cursorHasItems_of_offers h.hasItems at_' fuel line).symm))

/-- A turn of the direct loop is a turn of the other one. -/
theorem turnBody_approximates (h : Clear id line name body s)
    (has : iteratorHasItems id line s = .ok true s) (fuel : Nat) :
    Approximates (turnBody fuel cursor line name body) (turnBody (fuel + 5) cursor' line name body)
      s := by
  have more : fuel ≤ fuel + 5 := Nat.le_add_right fuel 5
  refine .bind (.refl _ _) fun scope s₁ opened _ => ?_
  have offers := h.get has opened
  have current : Approximates (cursorCurrent fuel cursor line)
      (cursorCurrent (fuel + 5) cursor' line) s₁ :=
    (Task.approximates_run more (.cursorCurrent cursor line) s₁).trans
      (.of_eq ((cursorCurrent_of_offers offers at_ fuel line).trans
        (cursorCurrent_of_offers offers at_' fuel line).symm))
  refine current.bind fun value s₂ _ _ => .bind (.refl _ _) fun _ s₃ _ _ => ?_
  exact .bind (.within scope (Task.approximates_run more (.exec body) _)) fun _ _ _ _ => .refl _ _

theorem advance_approximates (offers : s.Offers id .move) (fuel line : Nat) :
    Approximates (cursorAdvance fuel cursor line) (cursorAdvance (fuel + 5) cursor' line) s :=
  (Task.approximates_run (Nat.le_add_right fuel 5) (.cursorAdvance cursor line) s).trans
    (.of_eq ((cursorAdvance_of_offers offers at_ fuel line).trans
      (cursorAdvance_of_offers offers at_' fuel line).symm))

omit at_' in
/-- Asking for items changes nothing. -/
theorem hasItems_eq_ok (h : Clear id line name body s) {has : Bool} {s₁ : State}
    (asked : cursorHasItems fuel cursor line s = .ok has s₁) :
    s₁ = s ∧ iteratorHasItems id line s = .ok has s := by
  have more :=
    (Task.approximates_run (Nat.le_add_right fuel 5) (.cursorHasItems cursor line) s).eq_ok
    asked
  have direct : iteratorHasItems id line s = .ok has s₁ :=
    (cursorHasItems_of_offers h.hasItems at_ fuel line).symm.trans more
  obtain rfl := iteratorHasItems_same direct
  exact ⟨rfl, direct⟩

omit at_' in
/-- A turn up to the end of its body is one of the loop that steps the iterator directly. -/
theorem turnBody_eq_ok_direct (h : Clear id line name body s)
    (has : iteratorHasItems id line s = .ok true s)
    {completion : Completion}
    (ended : turnBody fuel cursor line name body s = .ok (value, completion) t) :
    turnBody (fuel + 5) (.direct id) line name body s = .ok (value, completion) t :=
  (turnBody_approximates at_ (Or.inl rfl) h has fuel).eq_ok ended

omit at_' in
/-- Behind the body of a turn of either loop. -/
theorem turn_of (h : Clear id line name body s) (has : iteratorHasItems id line s = .ok true s)
    (ended : turnBody fuel cursor line name body s = .ok (value, .normal) t) :
    t.Offers id .move ∧ ∀ fuel u, cursorAdvance fuel cursor line t = .ok () u →
      Clear id line name body u := by
  obtain ⟨offers, next⟩ := h.turn has (turnBody_eq_ok_direct at_ h has ended)
  refine ⟨offers, fun fuel u advanced => next u ?_⟩
  have more :=
    (Task.approximates_run (Nat.le_add_right fuel 5) (.cursorAdvance cursor line) t).eq_ok
    advanced
  exact (cursorAdvance_of_offers offers at_ fuel line).symm.trans more

/-- **One loop does what the other one does**, with a little more fuel. -/
theorem forEach_approximates (h : Clear id line name body s) (fuel : Nat) :
    Approximates (forEach fuel cursor line name body) (forEach (fuel + 5) cursor' line name body)
      s := by
  induction fuel generalizing s with
  | zero =>
    simp only [forEach]
    exact .outOfFuel
  | succ fuel ih =>
    have shift : fuel + 1 + 5 = fuel + 5 + 1 := by omega
    rw [shift, forEach_succ, forEach_succ]
    refine (hasItems_approximates at_ at_' h fuel).bind fun has s₁ asked _ => ?_
    obtain ⟨rfl, direct⟩ := hasItems_eq_ok at_ h asked
    cases has with
    | false => exact .refl _ _
    | true =>
      refine (turnBody_approximates at_ at_' h direct fuel).bind fun outcome t ended _ => ?_
      obtain ⟨value, how⟩ := outcome
      cases how with
      | returned result => exact .refl _ _
      | normal =>
        obtain ⟨offers, next⟩ := turn_of at_ h direct ended
        exact (advance_approximates at_ at_' offers fuel line).bind fun _ u advanced _ =>
          ih (next fuel u advanced)

/-- A turn of one loop is a turn of the other. -/
theorem turn_transfer (h : Clear id line name body s)
    (turn : Turn cursor line name body fuel s value u) :
    Turn cursor' line name body (fuel + 5) s value u ∧ Clear id line name body u := by
  obtain ⟨s₁, t, asked, ended, advanced⟩ := turn
  obtain ⟨rfl, direct⟩ := hasItems_eq_ok at_ h asked
  obtain ⟨offers, next⟩ := turn_of at_ h direct ended
  exact ⟨⟨s₁, t, (hasItems_approximates at_ at_' h fuel).eq_ok asked,
    (turnBody_approximates at_ at_' h direct fuel).eq_ok ended,
    (advance_approximates at_ at_' offers fuel line).eq_ok advanced⟩, next fuel u advanced⟩

/-- So all turns are, by induction on them. -/
theorem visits_transfer (h : Clear id line name body s) {values : List Value}
    (visits : Visits cursor line name body s values u) :
    Visits cursor' line name body s values u := by
  induction visits with
  | start s => exact .start s
  | turn turn _ ih =>
    obtain ⟨turn', next⟩ := turn_transfer at_ at_' h turn
    exact .turn turn' (ih next)

end Clear

/-- **Direct stepping is the protocol, unless a field hides a method.**  Take a loop that a session
steps directly, and suppose that whenever it consults its iterator, the method that it would call
by name is not hidden by a field of the iterator.  Then the loop that calls the methods visits the
same values in the same states, and concludes with the same completion or error and the same
state. -/
theorem direct_loop_is_protocol (input : Input) (room : Option Nat) (clock : Nat)
    (commands : List Command) (fuel : Nat) (id : InstanceId) (line : Nat) (name : Name)
    (body : Stmt) (s : State)
    (begun : (Past.after input room clock commands).moments
      (.begins fuel (.forEach (.direct id) line name body) s))
    (unshadowed : ∀ method t, Consults id line name body s method t → t.Unshadowed id method) :
    (∀ values t, Visits (.direct id) line name body s values t ↔
      Visits (.protocol (.inst id)) line name body s values t) ∧
    ∀ result, Concludes (fun fuel => forEach fuel (.direct id) line name body) s result ↔
      Concludes (fun fuel => forEach fuel (.protocol (.inst id)) line name body) s result := by
  obtain ⟨earlier, stack, begun⟩ := (Course.scoped input room clock commands).begun fuel
    (.forEach (.direct id) line name body) s begun
  have clear : Clear id line name body s := ⟨⟨_, _, _, _, begun⟩, unshadowed⟩
  have direct : Cursor.At (.direct id) id := Or.inl rfl
  have protocol : Cursor.At (.protocol (.inst id)) id := Or.inr rfl
  refine ⟨fun values t =>
    ⟨clear.visits_transfer direct protocol, clear.visits_transfer protocol direct⟩,
    fun result => ?_⟩
  exact concludes_iff (· + 5) (· + 5) (clear.forEach_approximates direct protocol)
    (clear.forEach_approximates protocol direct)

/-! ## 6. Loops that end are checked by running them

For a given session the hypothesis is checked by running the loop. -/

namespace Eval

variable {id : InstanceId} {line : Nat} {name : Name} {body : Stmt} {s t u : State}
  {method : BuiltinMethod}

/-- Something that a loop is asked for belongs to its first turn, or to what follows it. -/
theorem Consults.cases_first (h : Consults id line name body s method u) :
    (method = .hasItems ∧ u = s) ∨
    (method = .get ∧ iteratorHasItems id line s = .ok true s ∧ u.heap = s.heap) ∨
    (method = .move ∧ iteratorHasItems id line s = .ok true s ∧
      ∃ fuel value, turnBody fuel (.direct id) line name body s = .ok (value, .normal) u) ∨
    ∃ fuel value t, Turn (.direct id) line name body fuel s value t ∧
      Consults id line name body t method u := by
  cases h with
  | hasItems visits =>
    cases visits with
    | start => exact Or.inl ⟨rfl, rfl⟩
    | turn turn rest => exact Or.inr (Or.inr (Or.inr ⟨_, _, _, turn, .hasItems rest⟩))
  | get visits has opened =>
    cases visits with
    | start =>
      cases opened
      exact Or.inr (Or.inl ⟨rfl, has, rfl⟩)
    | turn turn rest => exact Or.inr (Or.inr (Or.inr ⟨_, _, _, turn, .get rest has opened⟩))
  | move visits has ended =>
    cases visits with
    | start => exact Or.inr (Or.inr (Or.inl ⟨rfl, has, _, _, ended⟩))
    | turn turn rest => exact Or.inr (Or.inr (Or.inr ⟨_, _, _, turn, .move rest has ended⟩))

/-- With more fuel a turn does the same. -/
theorem turnBody_mono {fuel fuel' : Nat} (le : fuel ≤ fuel') (cursor : Cursor) (s : State) :
    Approximates (turnBody fuel cursor line name body) (turnBody fuel' cursor line name body) s :=
  .bind (.refl _ _) fun scope s₁ _ _ =>
    (Task.approximates_run le (.cursorCurrent cursor line) s₁).bind fun _ _ _ _ =>
      .bind (.refl _ _) fun _ _ _ _ =>
        .bind (.within scope (Task.approximates_run le (.exec body) _)) fun _ _ _ _ => .refl _ _

/-- Runs a loop for some turns and looks for fields of the iterator that hide a method.  It says no
if it finds one, and also if the loop needs more turns or more fuel. -/
def isClear (fuel : Nat) (id : InstanceId) (line : Nat) (name : Name) (body : Stmt) :
    (turns : Nat) → State → Bool
  | 0, _ => false
  | turns + 1, s =>
    (s.heap.field? id BuiltinMethod.hasItems.name).isNone &&
      match iteratorHasItems id line s with
      | .ok true _ =>
        (s.heap.field? id BuiltinMethod.get.name).isNone &&
          match turnBody fuel (.direct id) line name body s with
          | .ok (_, .normal) t =>
            (t.heap.field? id BuiltinMethod.move.name).isNone &&
              match iteratorAdvance id line t with
              | .ok () u => isClear fuel id line name body turns u
              | .error _ _ => true
          | .ok (_, .returned _) _ => true
          | .error interrupt _ => interrupt != .outOfFuel
      | _ => true

/-- A field that is not there hides nothing. -/
theorem unshadowed_of_isNone (h : (s.heap.field? id method.name).isNone = true) :
    s.Unshadowed id method := by
  intro value found
  rw [found] at h
  cases h

/-- A loop that is seen to be clear is clear. -/
theorem unshadowed_of_isClear {fuel turns : Nat}
    (h : isClear fuel id line name body turns s = true) :
    ∀ method u, Consults id line name body s method u → u.Unshadowed id method := by
  induction turns generalizing s with
  | zero => cases h
  | succ turns ih =>
    obtain ⟨clearHas, rest⟩ := Bool.and_eq_true_iff.1 h
    intro method u consults
    -- what there is to know once the first turn has been found to begin
    have begun : iteratorHasItems id line s = .ok true s →
        (s.heap.field? id BuiltinMethod.get.name).isNone = true ∧
        ∀ fuel' value t, turnBody fuel' (.direct id) line name body s = .ok (value, .normal) t →
          (t.heap.field? id BuiltinMethod.move.name).isNone = true ∧
          ∀ u, iteratorAdvance id line t = .ok () u →
            isClear fuel id line name body turns u = true := by
      intro has
      rw [has] at rest
      obtain ⟨clearGet, rest⟩ := Bool.and_eq_true_iff.1 rest
      refine ⟨clearGet, fun fuel' value t ended => ?_⟩
      have concluded : Concludes (fun fuel => turnBody fuel (.direct id) line name body) s
          (.ok (value, .normal) t) :=
        ⟨not_starves_ok _ _, fuel', ended⟩
      have only : ¬ Starves (turnBody fuel (.direct id) line name body s) →
          turnBody fuel (.direct id) line name body s = .ok (value, .normal) t := fun enough =>
        Concludes.unique (x := fun fuel => turnBody fuel (.direct id) line name body)
          (fun _ _ le => turnBody_mono le (.direct id) s) ⟨enough, fuel, rfl⟩ concluded
      have enough : ¬ Starves (turnBody fuel (.direct id) line name body s) := by
        rintro ⟨s', starved⟩
        rw [starved] at rest
        cases rest
      rw [only enough] at rest
      obtain ⟨clearMove, rest⟩ := Bool.and_eq_true_iff.1 rest
      refine ⟨clearMove, fun u advanced => ?_⟩
      rwa [advanced] at rest
    rcases consults.cases_first with ⟨rfl, rfl⟩ | ⟨rfl, has, same⟩ |
      ⟨rfl, has, fuel', value, ended⟩ |
      ⟨fuel', value, t, ⟨s₁, s₂, asked, ended, advanced⟩, later⟩
    · exact unshadowed_of_isNone clearHas
    · have clearGet := (begun has).1
      rw [← same] at clearGet
      exact unshadowed_of_isNone clearGet
    · exact unshadowed_of_isNone ((begun has).2 fuel' value u ended).1
    · cases fuel' with
      | zero =>
        simp only [cursorHasItems] at asked
        cases asked
      | succ fuel' =>
        simp only [cursorHasItems, cursorAdvance] at asked advanced
        obtain rfl := iteratorHasItems_same asked
        exact ih (((begun asked).2 _ value s₂ ended).2 t advanced) method u later

end Eval

/-! ## 7. Two sessions

One to which the result applies, and one in which a field is in the way. -/

namespace Stepping

/-- A loop over a list. -/
def plain : List Stmt :=
  [.forEach 1 ⟨"x", 1⟩ (.list 1 [.literal (.string "a")]) (.print 1 (.variable ⟨0, ⟨"x", 1⟩⟩))]

/-- The text of a loop over an iterator that has got a field named `get`. -/
def shadowedText : String :=
  "fun f() \x7b return nil; \x7d " ++
  "class C \x7b iterate() \x7b var i = [\"a\"].iterate(); i.get = f; return i; \x7d \x7d " ++
  "foreach (x; C()) print x;"

/-- What that text says. -/
def shadowed : List Stmt :=
  [.funDecl ⟨⟨"f", 1⟩, [], [.ret 1 (some (.literal .nil))]⟩,
    .classDecl ⟨"C", 1⟩ none [⟨⟨"iterate", 1⟩, [],
      [.varDecl ⟨"i", 1⟩
          (some (.call (.get (.list 1 [.literal (.string "a")]) ⟨"iterate", 1⟩) [] 1)),
        .expression (.set (.variable ⟨0, ⟨"i", 1⟩⟩) ⟨"get", 1⟩ (.variable ⟨1, ⟨"f", 1⟩⟩)),
        .ret 1 (some (.variable ⟨2, ⟨"i", 1⟩⟩))]⟩],
    .forEach 1 ⟨"x", 1⟩ (.call (.variable ⟨3, ⟨"C", 1⟩⟩) [] 1)
      (.print 1 (.variable ⟨4, ⟨"x", 1⟩⟩))]

/-- Whether a loop that ends normally has then printed a text. -/
def prints (text : String) (result : EStateM.Result Interrupt State Completion) : Bool :=
  match result with
  | .ok .normal t => t.output.text == text
  | _ => false

/-- What has been seen by running a loop for some turns. -/
theorem concludes_of_prints {text : String} {x : Nat → Eval Completion} {s : State} {fuel : Nat}
    (h : prints text (x fuel s) = true) :
    ∃ t, Concludes x s (.ok .normal t) ∧ t.output.text = text := by
  unfold prints at h
  split at h
  · rename_i t ended
    exact ⟨t, ⟨not_starves_ok _ _, fuel, ended⟩, eq_of_beq h⟩
  · cases h

/-- Whether a loop that is stepped directly begins and passes a test. -/
def test (p : InstanceId → Nat → Name → Stmt → State → Bool) : Moment → Bool
  | .begins _ (.forEach (.direct id) line name body) s => p id line name body s
  | _ => false

/-- A session that passes such a loop. -/
theorem begins_loop (source : String) (program : List Stmt)
    (read : ((Session.new ⟨[], true⟩ none 0).accepted? source).map Prod.fst = some program)
    (p : InstanceId → Nat → Name → Stmt → State → Bool)
    (found : ((Session.new ⟨[], true⟩ none 0).trace 30 program).any (test p) = true) :
    ∃ fuel id line name body s, (Past.after ⟨[], true⟩ none 0 [.run 30 source]).moments
        (.begins fuel (.forEach (.direct id) line name body) s) ∧ p id line name body s = true := by
  obtain ⟨m, hm, hp⟩ :=
    Course.moment_of_trace (.new ⟨[], true⟩ none 0) 30 source program read _ found
  unfold test at hp
  split at hp
  · exact ⟨_, _, _, _, _, _, hm, hp⟩
  · cases hp

end Stepping

/-- Calling the methods by name visits the elements of a list, too. -/
theorem list_loop_is_protocol :
    ∃ fuel id line name body s t,
      (Past.after ⟨[], true⟩ none 0 [.run 30 "foreach (x; [\"a\"]) print x;"]).moments
        (.begins fuel (.forEach (.direct id) line name body) s) ∧
      Concludes (fun fuel => forEach fuel (.protocol (.inst id)) line name body) s (.ok .normal t) ∧
      t.output.text = "a\n" := by
  obtain ⟨fuel, id, line, name, body, s, begun, hp⟩ := Stepping.begins_loop
    "foreach (x; [\"a\"]) print x;" Stepping.plain (by cbv)
    (fun id line name body s => isClear 20 id line name body 2 s &&
      Stepping.prints "a\n" (forEach 20 (.direct id) line name body s)) (by decide +kernel)
  obtain ⟨clear, printed⟩ := Bool.and_eq_true_iff.1 hp
  obtain ⟨t, concluded, text⟩ := Stepping.concludes_of_prints
    (x := fun fuel => forEach fuel (.direct id) line name body) printed
  obtain ⟨-, same⟩ := direct_loop_is_protocol ⟨[], true⟩ none 0
    [.run 30 "foreach (x; [\"a\"]) print x;"] fuel id line name body s begun
    (unshadowed_of_isClear clear)
  exact ⟨fuel, id, line, name, body, s, t, begun, (same _).1 concluded, text⟩

/-- With a field named `get` the loop that steps the iterator directly prints the element, and the
loop that calls the methods prints what the field gives. -/
theorem shadowed_loop_differs :
    ∃ fuel id line name body s t t',
      (Past.after ⟨[], true⟩ none 0 [.run 30 Stepping.shadowedText]).moments
        (.begins fuel (.forEach (.direct id) line name body) s) ∧
      Concludes (fun fuel => forEach fuel (.direct id) line name body) s (.ok .normal t) ∧
      Concludes (fun fuel => forEach fuel (.protocol (.inst id)) line name body) s
        (.ok .normal t') ∧
      t.output.text = "a\n" ∧ t'.output.text = "nil\n" := by
  obtain ⟨fuel, id, line, name, body, s, begun, hp⟩ := Stepping.begins_loop
    Stepping.shadowedText Stepping.shadowed (by cbv)
    (fun id line name body s =>
      Stepping.prints "a\n" (forEach 20 (.direct id) line name body s) &&
        Stepping.prints "nil\n" (forEach 20 (.protocol (.inst id)) line name body s))
    (by decide +kernel)
  obtain ⟨direct, protocol⟩ := Bool.and_eq_true_iff.1 hp
  obtain ⟨t, concluded, text⟩ := Stepping.concludes_of_prints
    (x := fun fuel => forEach fuel (.direct id) line name body) direct
  obtain ⟨t', concluded', text'⟩ := Stepping.concludes_of_prints
    (x := fun fuel => forEach fuel (.protocol (.inst id)) line name body) protocol
  exact ⟨fuel, id, line, name, body, s, t, t', begun, concluded, concluded', text, text'⟩

end Lox
