/-
# What has been made under each stamp

A function, a class or a declared method that is bound to its receiver takes a stamp of its own when
it is made.  A `Register` says what was made under which stamp.  While a run goes on it gets more
entries and loses none, and every value that turns up is found in it (`Value.Registered`).  So two
values with the same stamp are the making of the same thing.

The register is the world of a lore (`registering`), and `registering_sound` is what there is to
show: an entry is made just where a stamp is taken, under a stamp that no entry has yet
(`State.Registered.make`).
-/
import Lox.Proofs.Eval.Change
import Lox.Proofs.Eval.Lore
import Lox.Proofs.Scoping.Anchoring

namespace Lox

/-! ## 1. Registers

A register is a function from stamps to what has been made under them.  Registers are ordered by
their entries. -/

/-- What evaluation makes under a stamp. -/
inductive Making where
  | closure (closure : Closure)
  | «class» (cls : Class)

/-- The stamp of a declared class. -/
def Class.stamp? : Class → Option Nat
  | builtin _ => none
  | base info | derived info _ => some info.stamp

/-- The class that a declaration makes, from its superclass if it has one. -/
def ClassInfo.under (info : ClassInfo) : Option Class → Class
  | none => .base info
  | some superclass => .derived info superclass

/-- A declared class has the stamp of its declaration. -/
theorem ClassInfo.stamp?_under (info : ClassInfo) (superclass : Option Class) :
    (info.under superclass).stamp? = some info.stamp := by
  cases superclass <;> rfl

/-- What a value is the making of, and under which stamp, if it has one. -/
def Value.making? : Value → Option (Nat × Making)
  | .callable (.closure closure) => some (closure.stamp, .closure closure)
  | .callable (.bound ⟨_, .declared closure⟩) => some (closure.stamp, .closure closure)
  | .callable (.class cls) => cls.stamp?.map fun stamp => (stamp, .class cls)
  | _ => none

/-- What has been made under which stamp. -/
structure Register where
  entry : Nat → Option Making

namespace Register

/-- A register with more entries. -/
instance : Preorder Register where
  le r r' := ∀ stamp made, r.entry stamp = some made → r'.entry stamp = some made
  le_refl _ _ _ h := h
  le_trans _ _ _ h h' stamp made found := h' stamp made (h stamp made found)

/-- Nothing has been made. -/
def empty : Register := ⟨fun _ => none⟩

/-- Something is made under a stamp. -/
def insert (r : Register) (stamp : Nat) (made : Making) : Register :=
  ⟨fun other => if other = stamp then some made else r.entry other⟩

/-- The entries of a register have stamps below one. -/
def Below (r : Register) (next : Nat) : Prop :=
  ∀ stamp made, r.entry stamp = some made → stamp < next

variable {r : Register} {stamp next : Nat}

theorem entry_insert_self (r : Register) (stamp : Nat) (made : Making) :
    (r.insert stamp made).entry stamp = some made :=
  if_pos rfl

/-- More stamps are used up. -/
theorem Below.mono (h : r.Below stamp) (le : stamp ≤ next) : r.Below next :=
  fun other made found => Nat.lt_of_lt_of_le (h other made found) le

/-- A new entry takes the place of no other. -/
theorem Below.le_insert (h : r.Below stamp) (made : Making) : r ≤ r.insert stamp made :=
  fun other found entry =>
    (if_neg (Nat.ne_of_lt (h other found entry))).trans entry

/-- An entry under a stamp that is used up. -/
theorem Below.insert (h : r.Below stamp) (lt : stamp < next) (made : Making) :
    (r.insert stamp made).Below next := by
  intro other found entry
  by_cases same : other = stamp
  · exact same ▸ lt
  · exact Nat.lt_trans (h other found ((if_neg same).symm.trans entry)) lt

end Register

/-- A value is found in a register, if it has a stamp. -/
def Value.Registered (r : Register) (value : Value) : Prop :=
  ∀ stamp made, value.making? = some (stamp, made) → r.entry stamp = some made

/-- All of some values are. -/
abbrev Value.AllRegistered (r : Register) (values : List Value) : Prop :=
  ∀ value ∈ values, value.Registered r

namespace Value

variable {r r' : Register}

/-- A value that is found is found in a larger register. -/
theorem Registered.mono {value : Value} (h : value.Registered r) (le : r ≤ r') :
    value.Registered r' :=
  fun stamp made found => le stamp made (h stamp made found)

theorem allRegistered_nil : AllRegistered r [] := fun _ mem => absurd mem List.not_mem_nil

theorem AllRegistered.mono {values : List Value} (h : AllRegistered r values) (le : r ≤ r') :
    AllRegistered r' values :=
  fun value mem => (h value mem).mono le

/-- A value without a stamp need not be found. -/
theorem registered_of_making?_eq_none {value : Value} (h : value.making? = none) :
    value.Registered r := by
  intro stamp made found
  cases h.symm.trans found

/-- A value that is made is found under its stamp. -/
theorem registered_insert {value : Value} {stamp : Nat} {made : Making}
    (h : value.making? = some (stamp, made)) : value.Registered (r.insert stamp made) := by
  rintro _ _ found
  cases h.symm.trans found
  exact r.entry_insert_self stamp made

/-- Data and instances have no stamp. -/
theorem harmless_registered (r : Register) : Harmless (Registered r) where
  data value data := by
    cases value with
    | callable callable => exact absurd rfl data
    | _ => exact registered_of_making?_eq_none rfl
  builtin _ := registered_of_making?_eq_none rfl

end Value

/-! ## 2. What tasks are given and answer

The values that tasks hand each other are found in the register. -/

/-- The values of a cursor. -/
def Cursor.values : Cursor → List Value
  | .direct iterator => [.inst iterator]
  | .protocol iterator => [iterator]

/-- The values that come with a completion. -/
def Completion.values : Completion → List Value
  | .normal => []
  | .returned value => [value]

namespace Task

/-- The values that a task is given. -/
def values : Task → List Value
  | call callee arguments _ => callee :: arguments
  | apply callable arguments _ => .callable callable :: arguments
  | applyMethod method arguments _ => .callable (.bound method) :: arguments
  | applyClosure _ arguments => arguments
  | invoke receiver _ arguments _ => receiver :: arguments
  | forEach cursor .. | cursorHasItems cursor _ | cursorCurrent cursor _
  | cursorAdvance cursor _ => cursor.values
  | eval _ | evalAll _ | evalOptional _ | exec _ | execAll _ | whileLoop .. => []

/-- The values that a task answers with. -/
def answered : (task : Task) → task.Answer → List Value
  | eval _, value | evalOptional _, value | call .., value | apply .., value
  | applyMethod .., value | applyClosure .., value | invoke .., value
  | cursorCurrent .., value => [value]
  | evalAll _, values => values
  | exec _, completion | execAll _, completion | whileLoop .., completion
  | forEach .., completion => completion.values
  | cursorHasItems .., _ | cursorAdvance .., _ => []

end Task

/-- All values in a state are found in a register, and its entries have stamps that are used up. -/
structure State.Registered (r : Register) (s : State) : Prop where
  within : s.Within (Value.Registered r)
  below : r.Below s.stamp

/-- The register of a run is what is known of it. -/
def registering : Lore Register where
  state r s := s.Registered r
  given r task := Value.AllRegistered r task.values
  told r task answer := Value.AllRegistered r (task.answered answer)

section Registering

variable {α β : Type} {r : Register} {s s' : State}

namespace State.Registered

/-- Only scopes, heap and stamps count. -/
theorem of_same (h : s.Registered r) (scopes : s'.scopes = s.scopes) (heap : s'.heap = s.heap)
    (stamp : s.stamp ≤ s'.stamp) : s'.Registered r where
  within := by
    have store : s'.store = s.store := by simp only [State.store, scopes, heap]
    rw [State.Within, store]
    exact h.within
  below := h.below.mono stamp

/-- Something is made under a stamp that has been taken since all entries were made. -/
theorem make (within : s.Within (Value.Registered r)) {stamp : Nat} (fresh : r.Below stamp)
    (taken : stamp < s.stamp) (made : Making) :
    r ≤ r.insert stamp made ∧ s.Registered (r.insert stamp made) :=
  ⟨fresh.le_insert made, fun value holds => (within value holds).mono (fresh.le_insert made),
    fresh.insert taken made⟩

/-- A new scope binds nothing. -/
theorem newScope (h : s.Registered r) (enclosing : ScopeId) :
    State.Registered r { s with scopes := (s.scopes.add (some enclosing)).2 } where
  within := Store.holds_scopes h.within fun scope name value found => by
    rw [Scopes.get?_add] at found
    exact h.within value (.bound found)
  below := h.below

/-- A scope may bind a value that is found. -/
theorem define (h : s.Registered r) (scope : ScopeId) (name : String) {value : Value}
    (hvalue : value.Registered r) :
    State.Registered r { s with scopes := s.scopes.define scope name value } where
  within := Store.holds_scopes h.within fun other name' found hfound => by
    rw [Scopes.get?_define] at hfound
    split at hfound
    · cases hfound
      exact hvalue
    · exact h.within found (.bound hfound)
  below := h.below

end State.Registered

/-! ## 3. Acts

Most acts take no stamp, so the register stays as it is. -/

/-- What there is to show for a script. -/
abbrev Script.Registers (script : Script α) (good : Register → α → State → Prop) (r : Register)
    (s : State) : Prop :=
  script.Learns registering good r s

/-- An answer that is found in the register. -/
abbrev Register.Good (r : Register) (value : Value) (_ : State) : Prop := value.Registered r

namespace Script

open Eval

variable (known : s.Registered r) {good : Register → α → State → Prop}

include known

/-- An act that leaves the scopes alone. -/
theorem registers_rearranging {x : Eval α} {found : α → State → Prop}
    (hx : x.Rearranges (Value.Registered r) found s) (behind : x.Develops)
    (h : ∀ v s', s'.Registered r → found v s' → good r v s') :
    (doing x).Registers good r s := by
  have stamp := (behind s).stamp
  refine learns_staying ?_
  unfold Eval.Rearranges at hx
  cases ran : x s with
  | ok v s' =>
    rw [ran] at hx stamp
    have known' : s'.Registered r := ⟨hx.1.within, known.below.mono stamp⟩
    exact ⟨known', h v s' known' hx.2⟩
  | error interrupt s' =>
    rw [ran] at hx stamp
    exact ⟨hx.within, known.below.mono stamp⟩

/-- To call a task with values that are found.  There may be more entries when it answers. -/
theorem registers_perform {task : Task} (given : Value.AllRegistered r task.values)
    {good : Register → task.Answer → State → Prop}
    (h : ∀ r' v s', r ≤ r' → s'.Registered r' → Value.AllRegistered r' (task.answered v) →
      good r' v s') : (perform task).Registers good r s :=
  learns_perform known given h

theorem registers_performIn (scope : ScopeId) {task : Task}
    (given : Value.AllRegistered r task.values) {good : Register → task.Answer → State → Prop}
    (h : ∀ r' v s', r ≤ r' → s'.Registered r' → Value.AllRegistered r' (task.answered v) →
      good r' v s') : (performIn scope task).Registers good r s :=
  learns_performIn known scope given h

/-- A new scope is no entry. -/
theorem registers_opening (origin : ScopeOrigin) (enclosing : ScopeId)
    {good : Register → ScopeId → State → Prop}
    (h : ∀ s', s'.Registered r → good r s.scopes.all.size s') :
    (opening origin enclosing).Registers good r s :=
  ⟨r, le_rfl, known.newScope enclosing, h _ (known.newScope enclosing)⟩

theorem registers_openScope (origin : ScopeOrigin) {good : Register → ScopeId → State → Prop}
    (h : ∀ scope s', s'.Registered r → good r scope s') :
    (openScope origin).Registers good r s :=
  learns_bind (learns_seeing known (registers_opening known origin _ (h _)))

theorem registers_defineIn (scope : ScopeId) (name : String) {value : Value}
    (hvalue : value.Registered r) {good : Register → Unit → State → Prop}
    (h : ∀ s', s'.Registered r → good r () s') :
    (doing (Eval.defineIn scope name value)).Registers good r s :=
  learns_staying ⟨known.define scope name hvalue, h _ (known.define scope name hvalue)⟩

theorem registers_define (name : String) {value : Value} (hvalue : value.Registered r)
    {good : Register → Unit → State → Prop} (h : ∀ s', s'.Registered r → good r () s') :
    (doing (Eval.define name value)).Registers good r s :=
  registers_defineIn known s.scope name hvalue h

/-- So it is for an assignment. -/
theorem registers_writeVariable (target : Variable) {value : Value} (hvalue : value.Registered r)
    {good : Register → Unit → State → Prop} (h : ∀ s', s'.Registered r → good r () s') :
    (doing (Eval.writeVariable target value)).Registers good r s := by
  refine learns_staying ?_
  unfold Eval.writeVariable
  dsimp only
  split
  · exact ⟨known.define _ _ hvalue, h _ (known.define _ _ hvalue)⟩
  · exact known

/-- The arguments of a call are found, so its scope binds what is found. -/
theorem registers_defineAll (scope : ScopeId) (names : List Name) {values : List Value}
    (given : Value.AllRegistered r values) {good : Register → Unit → State → Prop}
    (h : ∀ s', s'.Registered r → good r () s') :
    (doing (Eval.defineAll scope names values)).Registers good r s := by
  refine learns_staying ?_
  suffices kept : Ends (Eval.defineAll scope names values s) (fun _ s' => s'.Registered r)
      fun _ s' => s'.Registered r from
    Ends.imp kept (fun _ s' known' => ⟨known', h s' known'⟩) fun _ _ known' => known'
  induction names generalizing values s with
  | nil => exact known
  | cons name names ih =>
    cases values with
    | nil => exact known
    | cons value values =>
      exact ih (known.define scope name.text (given value List.mem_cons_self))
        fun other mem => given other (List.mem_cons_of_mem _ mem)

/-- A stamp is taken. -/
theorem registers_freshStamp {good : Register → Nat → State → Prop}
    (h : ∀ s', s'.Registered r → r.Below s.stamp → s.stamp < s'.stamp → good r s.stamp s') :
    (doing Eval.freshStamp).Registers good r s := by
  have known' : State.Registered r { s with stamp := s.stamp + 1 } :=
    known.of_same rfl rfl (Nat.le_succ _)
  exact learns_staying ⟨known', h _ known' known.below (Nat.lt_succ_self _)⟩

end Script

/-! ## 4. What takes a stamp

A bound method, a closure and a class take one stamp each, and get an entry under it. -/

namespace Task

open Script Eval

variable (known : s.Registered r)

include known

/-- A declared method that is bound to an instance gets an entry. -/
theorem registers_bindMethod (receiver : InstanceId) (method : Method) :
    (bindMethod receiver method).Registers
      (fun r' bound s' => s'.Registered r' ∧ (Value.callable (.bound bound)).Registered r' ∧ r ≤ r')
      r s := by
  cases method with
  | builtin method =>
    exact learns_pure known ⟨known, Value.registered_of_making?_eq_none rfl, le_rfl⟩
  | declared closure =>
    refine learns_bind (registers_opening known _ _ fun s₁ known₁ => ?_)
    refine learns_bind (registers_defineIn known₁ _ _ (Value.registered_of_making?_eq_none rfl)
      fun s₂ known₂ => ?_)
    obtain ⟨le, known₃⟩ := State.Registered.make (s := { s₂ with stamp := s₂.stamp + 1 })
      known₂.within known₂.below (Nat.lt_succ_self _)
      (.closure { closure with stamp := s₂.stamp, scope := s.scopes.all.size })
    exact learns_bind (learns_doing ⟨_, le, known₃,
      learns_pure known₃ ⟨known₃, Value.registered_insert rfl, le⟩⟩)

theorem registers_bound (receiver : InstanceId) (method : Method) :
    (do return .callable (.bound (← bindMethod receiver method)) : Script Value).Registers
      (fun r' value s' => s'.Registered r' ∧ value.Registered r' ∧ r ≤ r') r s :=
  learns_bind ((registers_bindMethod known receiver method).imp fun _ _ _ _ h =>
    learns_pure h.1 h)

/-- A property is a field, or a method that is bound. -/
theorem registers_getProperty (id : InstanceId) (name : String) (line : Nat) :
    (getProperty id name line).Registers
      (fun r' value s' => s'.Registered r' ∧ value.Registered r' ∧ r ≤ r') r s := by
  refine learns_bind (learns_seeing known ?_)
  split
  · rename_i value found
    exact learns_pure known ⟨known, known.within value (.field found), le_rfl⟩
  · split
    · exact registers_bound known _ _
    · exact learns_fail known

/-- The method is found in a class that is found in the scopes. -/
theorem registers_superMethod (node : Id) (line : Nat) (method : Name) :
    (superMethod node line method).Registers
      (fun r' value s' => s'.Registered r' ∧ value.Registered r' ∧ r ≤ r') r s := by
  refine learns_bind (learns_seeing known ?_)
  dsimp only [id]
  split
  · split
    · split
      · exact registers_bound known _ _
      · exact learns_fail known
    · exact learns_fail known
    · exact learns_fail known
    · exact learns_fail known
  · exact learns_fail known

/-- A class that is declared gets an entry, under the stamp that was taken before those of its
methods. -/
theorem registers_declareClass (name : Name) {superclass : Option Class}
    (hsuper : ∀ cls ∈ superclass, (Value.callable (.class cls)).Registered r)
    (methods : List FunDecl) :
    (declareClass name superclass methods).Registers (fun r' _ s' => s'.Registered r') r s := by
  refine learns_bind (registers_define known _ (Value.registered_of_making?_eq_none rfl)
    fun s₁ known₁ => ?_)
  have placed : (methodScope methods superclass).Registers (fun r' _ s' => s'.Registered r') r
      s₁ := by
    cases superclass with
    | none => exact learns_seeing known₁ known₁
    | some superclass =>
      refine learns_bind (registers_openScope known₁ _ fun scope s₂ known₂ => ?_)
      exact learns_bind (registers_defineIn known₂ _ _ (hsuper superclass rfl)
        fun s₃ known₃ => learns_pure known₃ known₃)
  refine learns_bind (placed.imp fun r₂ scope s₂ _ known₂ => ?_)
  refine learns_bind (registers_freshStamp known₂ fun s₃ known₃ fresh taken => ?_)
  obtain ⟨closures, stamp, made, -⟩ := Eval.newMethods_eq_ok scope methods .empty s₃
  have behind := (Develops.laws.newMethods scope methods .empty s₃).stamp
  rw [made] at behind
  have known₄ : State.Registered r₂ { s₃ with stamp := stamp } := known₃.of_same rfl rfl behind
  -- the class is known as soon as its methods are
  let cls := ClassInfo.under ⟨s₂.stamp, name.text, closures⟩ superclass
  have own : (Value.callable (.class cls)).making? = some (s₂.stamp, .class cls) := by
    rw [Value.making?, ClassInfo.stamp?_under]
    rfl
  obtain ⟨le, known₅⟩ := State.Registered.make known₄.within fresh
    (Nat.lt_of_lt_of_le taken behind) (.class cls)
  have bound : (doing (Eval.define name.text (.callable (.class cls)))).Registers
      (fun r' _ s' => s'.Registered r') (r₂.insert s₂.stamp (.class cls))
      { s₃ with stamp := stamp } :=
    registers_define known₅ _ (Value.registered_insert own) fun _ known₆ => known₆
  refine learns_bind (learns_doing ?_)
  rw [made]
  exact ⟨_, le, known₅, bound⟩

end Task

end Registering

end Lox
