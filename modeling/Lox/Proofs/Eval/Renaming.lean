/-
# Evaluations in which local variables have another name

While a program runs, and next to it the one in which some variables have another name, the scopes
that the two make correspond to each other.  A `World` records the marks of every scope made so far.
In a marked scope the variable stands under its new name, and otherwise the scopes bind the same
names; closures are made from declarations that go with the marks of their scope.

An evaluation is followed by another one (`Eval.Follows`) if from states that are kin in a world
they end in the same way, in states that are kin in a world with more scopes.  All values that are
kin stay kin when scopes are added.
-/
import Lox.Proofs.Eval.Kinship
import Lox.Proofs.Syntax.Renaming

namespace Lox

variable {ρ : Renaming} {r : Resolution}

/-! ## 1. Worlds and closures

A closure keeps the scope of its declaration, and the declaration that stands for it has been
renamed with the marks of that scope. -/

/-- The marks of the scopes made so far: for each one its own, and those of the scopes around it.
The globals are in no local scope. -/
abbrev World := List Marks

/-- A scope that has been made keeps its marks. -/
theorem World.mono {w w' : World} (le : w <+: w') {scope : ScopeId} {marks : Marks}
    (here : w[scope]? = some marks) : w'[scope]? = some marks := by
  obtain ⟨added, rfl⟩ := le
  obtain ⟨lt, -⟩ := List.getElem?_eq_some_iff.1 here
  rw [List.getElem?_append_left lt, here]

/-- A closure and what becomes of it.  `inner` are the marks of scopes that its calls lie in,
besides those around the scope that it has been made in. -/
structure Closure.Renamed (ρ : Renaming) (r : Resolution) (w : World) (inner : Marks)
    (c c' : Closure) : Prop where
  stamp : c.stamp = c'.stamp
  scope : c.scope = c'.scope
  isInitializer : c.isInitializer = c'.isInitializer
  declaration : ∃ marks, w[c.scope]? = some marks ∧
    c.declaration.Renamed ρ r (inner ++ marks) c'.declaration

namespace Closure.Renamed

variable {w w' : World} {inner : Marks} {c c' : Closure}

/-- Renaming changes nothing that can be found out without a call. -/
theorem twin (h : c.Renamed ρ r w inner c') : c.Twin c' := by
  obtain ⟨marks, -, declared⟩ := h.declaration
  exact ⟨h.stamp, congrArg Name.text declared.name_eq, declared.length_eq⟩

/-- A closure is renamed in a larger world if it is in a smaller one. -/
theorem mono (le : w <+: w') (h : c.Renamed ρ r w inner c') : c.Renamed ρ r w' inner c' := by
  obtain ⟨marks, here, declared⟩ := h.declaration
  exact ⟨h.stamp, h.scope, h.isInitializer, marks, World.mono le here, declared⟩

end Closure.Renamed

/-- What may stand for what in a world.  The calls of a method that is not bound yet will lie in the
scope of `this`, which is never marked. -/
def Renaming.kinship (ρ : Renaming) (r : Resolution) (w : World) : Kinship where
  closures := Closure.Renamed ρ r w []
  methods := Closure.Renamed ρ r w [false]
  twin := Closure.Renamed.twin
  twin_method := Closure.Renamed.twin

theorem Renaming.le_kinship {w w' : World} (le : w <+: w') :
    (ρ.kinship r w).Le (ρ.kinship r w') :=
  ⟨fun _ _ closure => closure.mono le, fun _ _ closure => closure.mono le⟩

/-- Values that are kin stay so as scopes are made. -/
theorem Value.Kin.grow {w w' : World} (le : w <+: w') {v v' : Value}
    (h : v.Kin (ρ.kinship r w) v') : v.Kin (ρ.kinship r w') v' :=
  h.mono (Renaming.le_kinship le)

theorem Value.Kin.grow_all {w w' : World} (le : w <+: w') {values values' : List Value}
    (h : List.Forall₂ (Value.Kin (ρ.kinship r w)) values values') :
    List.Forall₂ (Value.Kin (ρ.kinship r w')) values values' :=
  h.imp fun _ _ value => value.grow le

/-- Values that are kin in a world. -/
abbrev Renaming.values (ρ : Renaming) (r : Resolution) (w : World) : Value → Value → Prop :=
  Value.Kin (ρ.kinship r w)

/-! ## 2. Scopes

In a marked scope the old name is bound to nothing on one side, and the new name to nothing on the
other. -/

/-- A scope with some marks and what becomes of it. -/
structure Scope.Renamed (ρ : Renaming) (r : Resolution) (w : World) (marks : Marks)
    (a a' : Scope Value) : Prop where
  bindings : ∀ name name', ρ.Names (marks.headD false) name name' →
    Option.Rel (Value.Kin (ρ.kinship r w)) (a.bindings.get? name) (a'.bindings.get? name')
  enclosing : a.enclosing = a'.enclosing
  around : ∀ outer, a.enclosing = some outer → w[outer]? = some marks.tail

/-- The scopes made so far and what becomes of them. -/
structure Scopes.Renamed (ρ : Renaming) (r : Resolution) (w : World) (s s' : Scopes Value) :
    Prop where
  size : s.all.size = w.length
  size' : s'.all.size = w.length
  globals : w[globalScope]? = some []
  each : ∀ (i : ScopeId) marks a a', w[i]? = some marks → s.all[i]? = some a →
    s'.all[i]? = some a' → a.Renamed ρ r w marks a'

/-- So do the bindings of a scope. -/
theorem Scope.Renamed.grow {w w' : World} (le : w <+: w') {marks : Marks} {a a' : Scope Value}
    (h : a.Renamed ρ r w marks a') : a.Renamed ρ r w' marks a' where
  bindings _ _ names := rel_imp (h.bindings _ _ names) fun _ _ value => value.grow le
  enclosing := h.enclosing
  around outer link := World.mono le (h.around outer link)

/-- The scope in which the name at a node is looked up. -/
def Resolution.holder (r : Resolution) (id : Id) (scopes : Scopes Value) (scope : ScopeId) :
    Option ScopeId :=
  match r.binding id with
  | .local hops => scopes.ancestor? scope hops
  | .global => some globalScope

namespace Scopes.Renamed

variable {w : World} {s s' : Scopes Value} {i : ScopeId} {marks : Marks} {name name' : String}

/-- A scope of the world is there in both. -/
theorem found (h : s.Renamed ρ r w s') (here : w[i]? = some marks) :
    ∃ a a', s.all[i]? = some a ∧ s'.all[i]? = some a' ∧ a.Renamed ρ r w marks a' := by
  obtain ⟨lt, -⟩ := List.getElem?_eq_some_iff.1 here
  have left := Array.getElem?_eq_getElem (h.size ▸ lt)
  have right := Array.getElem?_eq_getElem (h.size' ▸ lt)
  exact ⟨_, _, left, right, h.each i marks _ _ here left right⟩

/-- A name that is found in a scope is found under its new name. -/
theorem get? (h : s.Renamed ρ r w s') (here : w[i]? = some marks)
    (names : ρ.Names (marks.headD false) name name') :
    Option.Rel (Value.Kin (ρ.kinship r w)) (s.get? i name) (s'.get? i name') := by
  obtain ⟨a, a', left, right, scope⟩ := h.found here
  unfold Scopes.get?
  rw [left, right]
  exact scope.bindings _ _ names

/-- Both scopes have the same link, and the marks of the outer scope are the rest of the marks. -/
theorem enclosing? (h : s.Renamed ρ r w s') (here : w[i]? = some marks) :
    s.enclosing? i = s'.enclosing? i ∧
      ∀ outer, s.enclosing? i = some outer → w[outer]? = some marks.tail := by
  obtain ⟨a, a', left, right, scope⟩ := h.found here
  unfold Scopes.enclosing?
  rw [left, right]
  exact ⟨scope.enclosing, scope.around⟩

/-- So many links out, the innermost marks are gone. -/
theorem ancestor? (h : s.Renamed ρ r w s') (here : w[i]? = some marks) (hops : Nat) :
    s.ancestor? i hops = s'.ancestor? i hops ∧
      ∀ outer, s.ancestor? i hops = some outer → w[outer]? = some (marks.drop hops) := by
  induction hops generalizing i marks with
  | zero => exact ⟨rfl, by rintro _ ⟨⟩; exact here⟩
  | succ hops ih =>
    obtain ⟨same, around⟩ := h.enclosing? here
    rw [Scopes.ancestor?, Scopes.ancestor?, ← same]
    cases link : s.enclosing? i with
    | none => exact ⟨rfl, by rintro _ ⟨⟩⟩
    | some outer =>
      have further := ih (around outer link)
      rwa [List.drop_tail] at further

/-- A name that is found over some links, by the mark of the scope at their end. -/
theorem getAt? (h : s.Renamed ρ r w s') (here : w[i]? = some marks) (hops : Nat)
    (names : ρ.Names (marks.getD hops false) name name') :
    Option.Rel (Value.Kin (ρ.kinship r w)) (s.getAt? i hops name) (s'.getAt? i hops name') := by
  obtain ⟨same, around⟩ := h.ancestor? here hops
  unfold Scopes.getAt?
  rw [← same]
  cases link : s.ancestor? i hops with
  | none => exact .none
  | some outer =>
    refine h.get? (around outer link) ?_
    rwa [List.headD_eq_head?_getD, List.head?_drop, ← List.getD_eq_getElem?_getD]

/-- The scope that a node's name is looked up in is the same, and it is marked if the name
changes. -/
theorem holder (h : s.Renamed ρ r w s') (here : w[i]? = some marks) (id : Id) :
    r.holder id s i = r.holder id s' i ∧ ∀ scope, r.holder id s i = some scope →
      ∃ around, w[scope]? = some around ∧ around.headD false = r.mark marks id := by
  unfold Resolution.holder Resolution.mark
  cases r.binding id with
  | «local» hops =>
    obtain ⟨same, around⟩ := h.ancestor? here hops
    refine ⟨same, fun scope found => ⟨_, around scope found, ?_⟩⟩
    rw [List.headD_eq_head?_getD, List.head?_drop, ← List.getD_eq_getElem?_getD]
  | global => exact ⟨rfl, by rintro _ ⟨⟩; exact ⟨[], h.globals, rfl⟩⟩

/-- A new scope may be marked or not. -/
theorem add (h : s.Renamed ρ r w s') (here : w[i]? = some marks) (mark : Bool) :
    (s.add (some i)).2.Renamed ρ r (w ++ [mark :: marks]) (s'.add (some i)).2 where
  size := by rw [Scopes.size_add, h.size, List.length_append, List.length_singleton]
  size' := by rw [Scopes.size_add, h.size', List.length_append, List.length_singleton]
  globals := World.mono (List.prefix_append _ _) h.globals
  each := by
    have le : w <+: w ++ [mark :: marks] := List.prefix_append _ _
    intro j marks' a a' found left right
    change (s.all.push _)[j]? = some a at left
    change (s'.all.push _)[j]? = some a' at right
    rw [Array.getElem?_push, h.size] at left
    rw [Array.getElem?_push, h.size'] at right
    by_cases new : j = w.length
    · rw [if_pos new] at left right
      rw [new, List.getElem?_concat_length] at found
      cases left
      cases right
      cases found
      refine ⟨fun _ _ _ => .none, rfl, fun outer link => ?_⟩
      cases link
      exact World.mono le here
    · rw [if_neg new] at left right
      have lt : j < w.length := by
        obtain ⟨lt, -⟩ := List.getElem?_eq_some_iff.1 found
        rw [List.length_append, List.length_singleton] at lt
        exact Nat.lt_of_le_of_ne (Nat.le_of_lt_succ lt) new
      rw [List.getElem?_append_left lt] at found
      exact (h.each j marks' a a' found left right).grow le

/-- A name that is defined in a scope, under its new name where the scope is marked.  No other name
is hidden by it. -/
theorem define (h : s.Renamed ρ r w s') (here : w[i]? = some marks)
    (names : ρ.Names (marks.headD false) name name') {v v' : Value}
    (value : v.Kin (ρ.kinship r w) v') :
    (s.define i name v).Renamed ρ r w (s'.define i name' v') where
  size := (Scopes.size_define ..).trans h.size
  size' := (Scopes.size_define ..).trans h.size'
  globals := h.globals
  each := by
    intro j marks' a a' found left right
    change (s.all.modify i _)[j]? = some a at left
    change (s'.all.modify i _)[j]? = some a' at right
    rw [Array.getElem?_modify] at left right
    obtain ⟨b, b', old, old', scope⟩ := h.found found
    rw [old] at left
    rw [old'] at right
    by_cases same : i = j
    · rw [if_pos same] at left right
      cases left
      cases right
      obtain rfl : marks = marks' := Option.some.inj (here.symm.trans (same ▸ found))
      refine ⟨fun other other' others => ?_, scope.enclosing, scope.around⟩
      rw [Bindings.get?_insert, Bindings.get?_insert]
      by_cases named : name = other
      · rw [if_pos named, if_pos ((names.eq_iff others).1 named)]
        exact .some value
      · rw [if_neg named, if_neg fun eq => named ((names.eq_iff others).2 eq)]
        exact scope.bindings _ _ others
    · rw [if_neg same] at left right
      cases left
      cases right
      exact scope

end Scopes.Renamed

/-! ## 3. States

Resolutions are the same on both sides, since only names differ. -/

/-- Why an evaluation fails, and why the other one does: the name of a variable that is not bound
may be another one. -/
inductive Renaming.Causes (ρ : Renaming) : RuntimeCause → RuntimeCause → Prop
  | same (cause : RuntimeCause) : Causes ρ cause cause
  | unbound : Causes ρ (.undefinedVariable ρ.old) (.undefinedVariable ρ.new)

/-- That a variable is undefined is reported under its name. -/
theorem Renaming.Names.causes {marked : Bool} {name name' : String}
    (h : ρ.Names marked name name') :
    ρ.Causes (.undefinedVariable name) (.undefinedVariable name') := by
  cases h with
  | unmarked | other => exact .same _
  | renamed => exact .unbound

/-- Where variables are found in a scope with some marks, and where they are then. -/
structure Environment.Renamed (ρ : Renaming) (r : Resolution) (w : World) (marks : Marks)
    (env env' : Environment) : Prop where
  scopes : env.scopes.Renamed ρ r w env'.scopes
  scope : env.scope = env'.scope
  here : w[env.scope]? = some marks
  resolution : env.resolution = r
  resolution' : env'.resolution = r

/-- What may stand for what while code is evaluated in a scope with some marks. -/
abbrev Renaming.run (ρ : Renaming) (r : Resolution) (w : World) (marks : Marks) : RunKinship where
  toKinship := ρ.kinship r w
  environments := Environment.Renamed ρ r w marks
  lines := Eq
  causes := ρ.Causes
  same_cause := .same

/-- What kinship says of two states: their scopes, where they are, and their resolution. -/
theorem State.Kin.variables {w : World} {marks : Marks} {s s' : State}
    (h : s.Kin (ρ.run r w marks) s') :
    s.scopes.Renamed ρ r w s'.scopes ∧ s.scope = s'.scope ∧ w[s.scope]? = some marks ∧
      s.resolution = r ∧ s'.resolution = r :=
  ⟨h.environment.scopes, h.environment.scope, h.environment.here, h.environment.resolution,
    h.environment.resolution'⟩

/-- How an evaluation is interrupted has nothing to do with the world. -/
theorem Interrupt.Kin.anywhere {w w' : World} {marks marks' : Marks} {i i' : Interrupt} :
    i.Kin (ρ.run r w marks) i' → i.Kin (ρ.run r w' marks') i'
  | .error causes lines => .error causes lines
  | .starved => .starved
  | .outOfFuel => .outOfFuel
  | .misuse => .misuse

/-- The current scope may be another one of the world. -/
theorem State.Kin.enter {w : World} {marks inner : Marks} {s s' : State}
    (h : s.Kin (ρ.run r w marks) s') {scope : ScopeId} (here : w[scope]? = some inner) :
    State.Kin (ρ.run r w inner) { s with scope := scope } { s' with scope := scope } :=
  { h with environment := { h.environment with scope := rfl, here := here } }

namespace Eval

variable {α β γ δ : Type} {w w' : World} {marks : Marks}

/-- An evaluation, and what becomes of it, end in the same way in a world with more scopes. -/
def Follows (ρ : Renaming) (r : Resolution) (w : World) (marks : Marks)
    (R : World → α → β → Prop) (x : Eval α) (y : Eval β) : Prop :=
  ∀ s s', s.Kin (ρ.run r w marks) s' →
    ∃ w', w <+: w' ∧ EndKin (ρ.run r w' marks) (R w') (x s) (y s')

namespace Follows

variable {R : World → α → β → Prop} {S : World → γ → δ → Prop} {x : Eval α} {y : Eval β}

/-- An evaluation that makes no scope. -/
theorem of_kin (h : Kin (ρ.run r w marks) (R w) x y) : Follows ρ r w marks R x y :=
  fun s s' kin => ⟨w, List.prefix_rfl, h s s' kin⟩

theorem pure {v : α} {v' : β} (h : R w v v') :
    Follows ρ r w marks R (Pure.pure v) (Pure.pure v') :=
  .of_kin (.pure h)

/-- The second evaluation begins in a world that has grown. -/
theorem bind {f : α → Eval γ} {g : β → Eval δ} (h : Follows ρ r w marks R x y)
    (hf : ∀ w', w <+: w' → ∀ v v', R w' v v' → Follows ρ r w' marks S (f v) (g v')) :
    Follows ρ r w marks S (x >>= f) (y >>= g) := by
  intro s s' kin
  obtain ⟨w', le, first⟩ := h s s' kin
  change ∃ w', w <+: w' ∧ EndKin _ _ (EStateM.bind x f s) (EStateM.bind y g s')
  unfold EStateM.bind
  cases hx : x s <;> cases hy : y s' <;> rw [hx, hy] at first <;> cases first
  case ok.ok.ok value state =>
    obtain ⟨w'', le', ends⟩ := hf w' le _ _ value _ _ state
    exact ⟨w'', le.trans le', ends⟩
  case error.error.error interrupt state => exact ⟨w', le, .error interrupt state⟩

/-- An act that makes no scope, and then an evaluation that may. -/
theorem act {f : α → Eval γ} {g : β → Eval δ} {T : α → β → Prop}
    (h : Kin (ρ.run r w marks) T x y)
    (hf : ∀ v v', T v v' → Follows ρ r w marks S (f v) (g v')) :
    Follows ρ r w marks S (x >>= f) (y >>= g) := by
  intro s s' kin
  have first := h s s' kin
  change ∃ w', w <+: w' ∧ EndKin _ _ (EStateM.bind x f s) (EStateM.bind y g s')
  unfold EStateM.bind
  cases hx : x s <;> cases hy : y s' <;> rw [hx, hy] at first <;> cases first
  case ok.ok.ok value state => exact hf _ _ value _ _ state
  case error.error.error interrupt state => exact ⟨w, List.prefix_rfl, .error interrupt state⟩

/-- What is made of an answer makes no difference. -/
theorem map {f : α → γ} {g : β → δ} (h : Follows ρ r w marks R x y)
    (hf : ∀ w' v v', R w' v v' → S w' (f v) (g v')) :
    Follows ρ r w marks S (f <$> x) (g <$> y) := by
  rw [← bind_pure_comp, ← bind_pure_comp]
  exact h.bind fun w' _ v v' value => .pure (hf w' v v' value)

theorem fail (cause : RuntimeCause) (line : Nat) :
    Follows ρ r w marks R (Eval.fail cause line) (Eval.fail cause line) :=
  .of_kin (.fail cause rfl)

/-- An interrupt that is kin to itself. -/
theorem throw (i : Interrupt) (h : i.Kin (ρ.run r w marks) i) :
    Follows ρ r w marks R (MonadExcept.throw i) (MonadExcept.throw i) :=
  .of_kin (.throw h)

/-- A choice that is the same for both. -/
theorem ite {p q : Prop} [Decidable p] [Decidable q] (same : p ↔ q) {x x' : Eval α} {y y' : Eval β}
    (h : Follows ρ r w marks R x y) (h' : Follows ρ r w marks R x' y') :
    Follows ρ r w marks R (if p then x else x') (if q then y else y') := by
  by_cases hp : p
  · rw [if_pos hp, if_pos (same.1 hp)]
    exact h
  · rw [if_neg hp, if_neg fun hq => hp (same.2 hq)]
    exact h'

/-! ## 4. Scopes and calls

Where a scope is made, its mark is chosen, and it stays. -/

/-- To go to another scope and back. -/
theorem within {scope : ScopeId} {inner : Marks} (here : w[scope]? = some inner)
    (h : Follows ρ r w inner R x y) :
    Follows ρ r w marks R (Eval.within scope x) (Eval.within scope y) := by
  intro s s' kin
  obtain ⟨w', le, ends⟩ := h _ _ (kin.enter here)
  have back : w'[s.scope]? = some marks := World.mono le kin.environment.here
  refine ⟨w', le, ?_⟩
  have same : s.scope = s'.scope := kin.environment.scope
  unfold Eval.within
  dsimp only
  rw [← same]
  cases hx : x { s with scope := scope } <;> cases hy : y { s' with scope := scope } <;>
    rw [hx, hy] at ends <;> cases ends
  · rename_i value state
    exact .ok value (state.enter back)
  · rename_i interrupt state
    exact .error interrupt.anywhere (state.enter back)

/-- The calls in progress are the same in both. -/
theorem nested (line : Nat) (h : Follows ρ r w marks R x y) :
    Follows ρ r w marks R (Eval.nested line x) (Eval.nested line y) := by
  intro s s' kin
  change ∃ w', w <+: w' ∧ EndKin _ _ (if maxDepth ≤ s.depth then _ else _)
    (if maxDepth ≤ s'.depth then _ else _)
  rw [← kin.depth]
  by_cases full : maxDepth ≤ s.depth
  · rw [if_pos full, if_pos full]
    exact ⟨w, List.prefix_rfl, .error (.error (.same _) rfl) kin⟩
  · rw [if_neg full, if_neg full]
    obtain ⟨w', le, ends⟩ := h { s with depth := s.depth + 1 } { s' with depth := s.depth + 1 }
      { kin with depth := rfl }
    refine ⟨w', le, ?_⟩
    cases hx : x { s with depth := s.depth + 1 } <;>
      cases hy : y { s' with depth := s.depth + 1 } <;> rw [hx, hy] at ends <;> cases ends
    · rename_i value state
      exact .ok value { state with depth := congrArg (· - 1) state.depth }
    · rename_i interrupt state
      exact .error interrupt { state with depth := congrArg (· - 1) state.depth }

/-- A new scope may be given any mark. -/
theorem newScope {enclosing : ScopeId} {outer : Marks} (here : w[enclosing]? = some outer)
    (mark : Bool) :
    Follows ρ r w marks (fun w' i i' => i = i' ∧ w'[i]? = some (mark :: outer))
      (Eval.newScope enclosing) (Eval.newScope enclosing) := by
  intro s s' kin
  have le : w <+: w ++ [mark :: outer] := List.prefix_append _ _
  have scopes : s.scopes.Renamed ρ r w s'.scopes := kin.environment.scopes
  refine ⟨w ++ [mark :: outer], le, .ok ⟨?_, ?_⟩ ?_⟩
  · exact scopes.size.trans scopes.size'.symm
  · change (w ++ [mark :: outer])[s.scopes.all.size]? = _
    rw [scopes.size, List.getElem?_concat_length]
  · exact { kin with
      heap := kin.heap.mono (Renaming.le_kinship le)
      environment := { kin.environment with
        scopes := scopes.add here mark
        here := World.mono le kin.environment.here } }

theorem childScope (mark : Bool) :
    Follows ρ r w marks (fun w' i i' => i = i' ∧ w'[i]? = some (mark :: marks))
      Eval.childScope Eval.childScope := by
  intro s s' kin
  obtain ⟨-, same, here, -, -⟩ := kin.variables
  change ∃ w', w <+: w' ∧ EndKin _ _ (Eval.newScope s.scope s) (Eval.newScope s'.scope s')
  rw [← same]
  exact newScope here mark s s' kin

end Follows

/-- A variable gets its value in the scope that it is looked up in, if it is bound there. -/
theorem writeVariable_eq (v : Variable) (value : Value) (s : State) :
    Eval.writeVariable v value s =
      ((s.resolution.holder v.id s.scopes s.scope).filter (s.scopes.binds · v.name.text)).elim
        (.error (.error ⟨.undefinedVariable v.name.text, v.name.line⟩) s)
        fun scope => .ok () { s with scopes := s.scopes.define scope v.name.text value } := by
  unfold Eval.writeVariable Resolution.holder
  cases s.resolution.binding v.id <;> dsimp only <;> generalize Option.filter _ _ = found <;>
    cases found <;> rfl

namespace Kin

/-- Defining a name in a scope whose marks are known. -/
theorem defineIn {scope : ScopeId} {inner : Marks} (here : w[scope]? = some inner)
    {name name' : String} (names : ρ.Names (inner.headD false) name name') {v v' : Value}
    (value : v.Kin (ρ.kinship r w) v') :
    Kin (ρ.run r w marks) (· = ·) (Eval.defineIn scope name v) (Eval.defineIn scope name' v') :=
  .modify fun _ _ kin => { kin with
    environment := { kin.environment with
      scopes := kin.environment.scopes.define here names value } }

theorem define {name name' : String} (names : ρ.Names (marks.headD false) name name')
    {v v' : Value} (value : v.Kin (ρ.kinship r w) v') :
    Kin (ρ.run r w marks) (· = ·) (Eval.define name v) (Eval.define name' v') := by
  intro s s' kin
  obtain ⟨-, same, here, -, -⟩ := kin.variables
  change EndKin _ _ (Eval.defineIn s.scope name v s) (Eval.defineIn s'.scope name' v' s')
  rw [← same]
  exact Kin.defineIn here names value s s' kin

/-! ## 5. Variables

The two evaluations look up different names in scopes that correspond to each other. -/

/-- The resolution leads to a scope, and its mark says under which name the variable is found
there. -/
theorem readVariable (id : Id) {name name' : String} (names : ρ.Names (r.mark marks id) name name')
    (line : Nat) :
    Kin (ρ.run r w marks) (ρ.values r w) (Eval.readVariable id name line)
      (Eval.readVariable id name' line) := by
  refine .bind .get fun s s' kin => ?_
  obtain ⟨scopes, scope, here, resolution, resolution'⟩ := kin.variables
  rw [resolution, resolution', ← scope]
  unfold Resolution.mark at names
  cases found : r.binding id with
  | «local» hops =>
    rw [found] at names
    dsimp only
    rcases rel_cases (scopes.getAt? here hops names) with
      ⟨left, right⟩ | ⟨v, v', left, right, value⟩ <;> rw [left, right]
    · exact .throw (.error names.causes rfl)
    · exact .pure value
  | global =>
    rw [found] at names
    dsimp only
    rcases rel_cases (scopes.get? scopes.globals names) with
      ⟨left, right⟩ | ⟨v, v', left, right, value⟩ <;> rw [left, right]
    · exact .throw (.error names.causes rfl)
    · exact .pure value

/-- As for reading.  What is missing is reported under its name. -/
theorem writeVariable {target target' : Variable} (targets : target.Renamed ρ r marks target')
    {v v' : Value} (value : v.Kin (ρ.kinship r w) v') :
    Kin (ρ.run r w marks) (· = ·) (Eval.writeVariable target v)
      (Eval.writeVariable target' v') := by
  intro s s' kin
  obtain ⟨scopes, scope, here, resolution, resolution'⟩ := kin.variables
  have names := targets.name.text
  obtain ⟨same, found⟩ := scopes.holder here target.id
  rw [writeVariable_eq, writeVariable_eq, resolution, resolution', ← scope, ← targets.id, ← same]
  cases held : r.holder target.id s.scopes s.scope with
  | none => exact .error (.error names.causes targets.name.line) kin
  | some holder =>
    obtain ⟨around, there, mark⟩ := found holder held
    rw [← mark] at names
    have binds : s.scopes.binds holder target.name.text =
        s'.scopes.binds holder target'.name.text := rel_isSome (scopes.get? there names)
    rw [Option.filter_some, Option.filter_some, ← binds]
    by_cases bound : s.scopes.binds holder target.name.text = true
    · rw [if_pos bound]
      exact .ok rfl { kin with
        environment := ⟨scopes.define there names value, rfl, here, rfl, rfl⟩ }
    · rw [if_neg bound]
      exact .error (.error names.causes targets.name.line) kin

end Kin

end Eval

end Lox
