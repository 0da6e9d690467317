/-
# Where functions and classes come from

A function keeps the scope in which its declaration was executed, and a class has the methods of its
declaration, the last one under each name; if there is a superclass, the methods keep a scope of
their own inside the one in which the declaration was executed.  A method that is bound to an
instance keeps a new scope in the one that it had.  `Value.Traced` says so of all functions and
classes in a value, with the moment of the past at which the declaration was executed.

A run reaches the scopes around the current one and no others.  So a scope is out of its reach if
the current scope does not lie in it (`Scopes.Clear`) and if, besides, either no function keeps a
scope in it or none that does is run.  A `Fence` is made up of such scopes; what they bind stays as
it is.

Both are what the regime `tracing` is about.
-/
import Lox.Proofs.Eval.Register
import Lox.Proofs.Scoping.Forest
import Lox.Proofs.Scoping.Holding

namespace Lox

/-! ## 1. Scopes in others

Scopes are linked when they are made and never again.  So what lies in what is settled once a scope
is there. -/

namespace Scopes

variable {α : Type}

/-- A scope is another one or lies in it, over any number of links. -/
def Inside (scopes : Scopes α) (inner outer : ScopeId) : Prop :=
  ∃ hops, scopes.ancestor? inner hops = some outer

/-- Scopes have been made besides those that there were, and none of these has been linked anew.
They lie in older ones. -/
structure Extends (scopes scopes' : Scopes α) : Prop where
  ordered : scopes.Ordered
  size : scopes.all.size ≤ scopes'.all.size
  enclosing : ∀ scope, scope < scopes.all.size →
    scopes'.enclosing? scope = scopes.enclosing? scope

variable {scopes scopes' scopes'' : Scopes α} {inner outer : ScopeId}

namespace Extends

theorem refl (ordered : scopes.Ordered) : scopes.Extends scopes :=
  ⟨ordered, Nat.le_refl _, fun _ _ => rfl⟩

/-- Scopes that have been made twice over. -/
theorem trans (h : scopes.Extends scopes') (h' : scopes'.Extends scopes'') :
    scopes.Extends scopes'' where
  ordered := h.ordered
  size := Nat.le_trans h.size h'.size
  enclosing scope lt :=
    (h'.enclosing scope (Nat.lt_of_lt_of_le lt h.size)).trans (h.enclosing scope lt)

/-- A new scope is one more, and no link is changed. -/
theorem add (ordered : scopes.Ordered) (enclosing : Option ScopeId) :
    scopes.Extends (scopes.add enclosing).2 where
  ordered := ordered
  size := by
    rw [size_add]
    exact Nat.le_succ _
  enclosing scope lt := by rw [enclosing?_add, if_neg (Nat.ne_of_lt lt)]

/-- Defining a name makes no scope and changes no link. -/
theorem define (ordered : scopes.Ordered) (scope : ScopeId) (name : String) (value : α) :
    scopes.Extends (scopes.define scope name value) where
  ordered := ordered
  size := Nat.le_of_eq (size_define ..).symm
  enclosing _ _ := enclosing?_define ..

/-- Links are kept. -/
theorem liesIn (h : scopes.Extends scopes') (link : scopes.LiesIn inner outer) :
    scopes'.LiesIn inner outer :=
  (h.enclosing inner (lt_size_of_enclosing? link)).trans link

/-- What lies around a scope stays as it is. -/
theorem ancestor?_eq (h : scopes.Extends scopes') (there : inner < scopes.all.size) (hops : Nat) :
    scopes'.ancestor? inner hops = scopes.ancestor? inner hops := by
  induction hops generalizing inner with
  | zero => rfl
  | succ hops ih =>
    rw [ancestor?, ancestor?, h.enclosing inner there]
    cases link : scopes.enclosing? inner with
    | none => rfl
    | some next => exact ih (Nat.lt_trans (h.ordered _ _ link) there)

/-- Which scopes lie in each other does not change for those that are there. -/
theorem inside_iff (h : scopes.Extends scopes') (there : inner < scopes.all.size) :
    scopes'.Inside inner outer ↔ scopes.Inside inner outer := by
  simp only [Inside, h.ancestor?_eq there]

end Extends

theorem Inside.refl (scopes : Scopes α) (scope : ScopeId) : scopes.Inside scope scope := ⟨0, rfl⟩

/-- A scope is inside another one if it is the same, or if that around it is inside. -/
theorem inside_of_liesIn {next : ScopeId} (link : scopes.LiesIn inner next) :
    scopes.Inside inner outer ↔ inner = outer ∨ scopes.Inside next outer := by
  constructor
  · rintro ⟨hops, reached⟩
    cases hops with
    | zero => exact .inl (Option.some.inj reached)
    | succ hops =>
      rw [ancestor?, show scopes.enclosing? inner = _ from link] at reached
      exact .inr ⟨hops, reached⟩
  · rintro (rfl | ⟨hops, reached⟩)
    · exact .refl scopes inner
    · refine ⟨hops + 1, ?_⟩
      rw [ancestor?, show scopes.enclosing? inner = _ from link]
      exact reached

/-- Over the links of both. -/
theorem Inside.trans {middle : ScopeId} (h : scopes.Inside inner middle)
    (h' : scopes.Inside middle outer) : scopes.Inside inner outer := by
  obtain ⟨hops, reached⟩ := h
  induction hops generalizing inner with
  | zero => exact Option.some.inj reached ▸ h'
  | succ hops ih =>
    rw [ancestor?] at reached
    split at reached
    · rename_i next link
      exact (inside_of_liesIn link).2 (.inr (ih reached))
    · cases reached

/-- What is inside is no older. -/
theorem Inside.le (h : scopes.Inside inner outer) (ordered : scopes.Ordered) : outer ≤ inner :=
  h.elim fun _ reached => ordered.le_of_ancestor? reached

/-- A scope is there and does not lie in any of some others. -/
structure Clear (others : ScopeId → Prop) (scopes : Scopes α) (scope : ScopeId) : Prop where
  lt_size : scope < scopes.all.size
  outside : ∀ n, others n → ¬ scopes.Inside scope n

namespace Clear

variable {others : ScopeId → Prop} {scope n : ScopeId}

/-- A scope that is clear of others is none of them. -/
theorem ne (h : scopes.Clear others scope) (hn : others n) : scope ≠ n :=
  fun same => h.outside n hn (same ▸ .refl scopes scope)

theorem of_imp {fewer : ScopeId → Prop} (h : scopes.Clear others scope)
    (himp : ∀ n, fewer n → others n) : scopes.Clear fewer scope :=
  ⟨h.lt_size, fun n hn => h.outside n (himp n hn)⟩

/-- A scope that is clear stays clear, since it is not linked anew. -/
theorem mono (h : scopes.Clear others scope) (extended : scopes.Extends scopes') :
    scopes'.Clear others scope where
  lt_size := Nat.lt_of_lt_of_le h.lt_size extended.size
  outside n hn inside := h.outside n hn ((extended.inside_iff h.lt_size).1 inside)

/-- A scope that is made in a clear one is clear. -/
theorem add (h : scopes.Clear others scope) (ordered : scopes.Ordered)
    (there : ∀ n, others n → n < scopes.all.size) :
    (scopes.add (some scope)).2.Clear others scopes.all.size where
  lt_size := by
    rw [size_add]
    exact Nat.lt_succ_self _
  outside n hn inside := by
    have link : (scopes.add (some scope)).2.LiesIn scopes.all.size scope := by
      rw [LiesIn, enclosing?_add, if_pos rfl]
    rcases (inside_of_liesIn link).1 inside with rfl | inside
    · exact Nat.lt_irrefl _ (there _ hn)
    · exact (h.mono (.add ordered _)).outside n hn inside

end Clear

end Scopes

/-- Scopes that a run does not reach. -/
structure Fence where
  /-- No function keeps a scope in them. -/
  closed : ScopeId → Prop
  /-- No function is run that keeps a scope in them. -/
  spared : ScopeId → Prop

namespace Fence

/-- All scopes of both kinds. -/
def All (fence : Fence) (n : ScopeId) : Prop := fence.closed n ∨ fence.spared n

/-- A run may reach all scopes. -/
def none : Fence := ⟨fun _ => False, fun _ => False⟩

/-- Nothing is in the fence that is empty. -/
theorem not_none {n : ScopeId} : ¬ none.All n := fun h => h.elim id id

/-- A scope that no function leads to. -/
def closing (n : ScopeId) : Fence := ⟨(· = n), fun _ => False⟩

/-- A scope to which functions may lead that are not run. -/
def sparing (n : ScopeId) : Fence := ⟨fun _ => False, (· = n)⟩

end Fence

/-! ## 2. Values with a past

The past is the history of moments.  A closure points back to the moment at which its declaration
was executed, and a class to the moment of its own. -/

/-- What the declaration of a class makes: under each name the last method that has it, as a closure
in a given scope. -/
structure ClassInfo.MadeFrom (info : ClassInfo) (name : Name) (methods : List FunDecl)
    (scope : ScopeId) : Prop where
  name : info.name = name.text
  last : ∀ method, (info.methods.get? method).map Closure.declaration =
    methods.findRev? (·.name.text = method)
  kept : ∀ method closure, info.methods.get? method = some closure →
    closure.scope = scope ∧ closure.isInitializer = closure.declaration.isInitializer

/-- A class is built in, or has been made by executing its declaration. -/
inductive Past.Makes (past : Past) (scopes : Scopes Value) : Class → Prop where
  | builtin (kind : BuiltinClass) : Makes past scopes (.builtin kind)
  | base {fuel : Nat} {name : Name} {methods : List FunDecl} {s : State} {info : ClassInfo}
      (begun : past.moments (.begins (fuel + 1) (.exec (.classDecl name none methods)) s))
      (made : info.MadeFrom name methods s.scope) : Makes past scopes (.base info)
  /-- The superclass is what the variable after `<` has given. -/
  | derived {fuel : Nat} {name : Name} {parent : Variable} {methods : List FunDecl} {s s' : State}
      {scope : ScopeId} {info : ClassInfo} {superclass : Class}
      (begun : past.moments (.begins (fuel + 1) (.exec (.classDecl name (some parent) methods)) s))
      (evaluated : Eval.eval fuel (.variable parent) s = .ok (.callable (.class superclass)) s')
      (opened : past.Opened scope (.superclass methods)) (link : scopes.LiesIn scope s.scope)
      (made : info.MadeFrom name methods scope) : Makes past scopes (.derived info superclass)

/-- How a closure has been made: as a function, as a method of a class, or by binding such a method
to an instance. -/
inductive Past.MakesClosure (past : Past) (scopes : Scopes Value) (closure : Closure) : Prop where
  | function {fuel : Nat} {s : State}
      (begun : past.moments (.begins (fuel + 1) (.exec (.funDecl closure.declaration)) s))
      (kept : closure.scope = s.scope)
  | method {level : Class} {name : String} (makes : past.Makes scopes level)
      (own : level.methods.get? name = some closure)
  | bound {level : Class} {name : String} {original : Closure} (makes : past.Makes scopes level)
      (own : level.methods.get? name = some original)
      (same : closure.declaration = original.declaration)
      (link : scopes.LiesIn closure.scope original.scope)
      (opened : past.Opened closure.scope (.receiver original.declaration))

/-- A closure has a past, and does not keep a scope in those that are closed. -/
structure Closure.Traced (past : Past) (fence : Fence) (scopes : Scopes Value) (closure : Closure) :
    Prop where
  clear : scopes.Clear fence.closed closure.scope
  made : past.MakesClosure scopes closure

/-- The functions and classes in a value have a past. -/
structure Value.Traced (past : Past) (fence : Fence) (scopes : Scopes Value) (value : Value) :
    Prop where
  closures : ∀ closure, value.Carries closure → closure.Traced past fence scopes
  levels : ∀ cls, value = .callable (.class cls) → ∀ level ∈ cls.chain, past.Makes scopes level

/-- So have those in all of some values. -/
abbrev Value.AllTraced (past : Past) (fence : Fence) (scopes : Scopes Value)
    (values : List Value) : Prop :=
  ∀ value ∈ values, value.Traced past fence scopes

section Traced

variable {past : Past} {fence : Fence} {scopes scopes' : Scopes Value}

/-- The past of a class is kept as scopes are made. -/
theorem Past.Makes.mono {cls : Class} (h : past.Makes scopes cls)
    (extended : scopes.Extends scopes') : past.Makes scopes' cls := by
  cases h with
  | builtin kind => exact .builtin kind
  | base begun made => exact .base begun made
  | derived begun evaluated opened link made =>
    exact .derived begun evaluated opened (extended.liesIn link) made

/-- The past of a closure is kept as scopes are made. -/
theorem Closure.Traced.mono {closure : Closure} (h : closure.Traced past fence scopes)
    (extended : scopes.Extends scopes') : closure.Traced past fence scopes' where
  clear := h.clear.mono extended
  made := by
    cases h.made with
    | function begun kept => exact .function begun kept
    | method makes own => exact .method (makes.mono extended) own
    | bound makes own same link opened =>
      exact .bound (makes.mono extended) own same (extended.liesIn link) opened

namespace Value

theorem Traced.mono {value : Value} (h : value.Traced past fence scopes)
    (extended : scopes.Extends scopes') : value.Traced past fence scopes' where
  closures closure carries := (h.closures closure carries).mono extended
  levels cls same level above := (h.levels cls same level above).mono extended

/-- So is that of all values at hand. -/
theorem AllTraced.mono {values : List Value} (h : AllTraced past fence scopes values)
    (extended : scopes.Extends scopes') : AllTraced past fence scopes' values :=
  fun value mem => (h value mem).mono extended

theorem allTraced_nil : AllTraced past fence scopes [] := fun _ mem => absurd mem List.not_mem_nil

/-- One more value with a past. -/
theorem allTraced_cons {value : Value} {values : List Value} (h : value.Traced past fence scopes)
    (h' : AllTraced past fence scopes values) : AllTraced past fence scopes (value :: values) :=
  List.forall_mem_cons.2 ⟨h, h'⟩

theorem allTraced_singleton {value : Value} (h : value.Traced past fence scopes) :
    AllTraced past fence scopes [value] :=
  allTraced_cons h allTraced_nil

/-- A value that is at hand on its own. -/
theorem traced_of_told {value : Value} (h : AllTraced past fence scopes [value]) :
    value.Traced past fence scopes :=
  h value List.mem_cons_self

/-- In data and instances, and in what is built in, there are no functions and classes. -/
theorem traced_of_making?_eq_none {value : Value} (h : value.making? = none) :
    value.Traced past fence scopes where
  closures closure carries := by
    cases carries with
    | closure => cases h
    | bound => cases h
    | @method cls level _ _ above own =>
      cases cls with
      | builtin kind =>
        obtain rfl := List.mem_singleton.1 above
        cases own
      | _ => cases h
  levels := by
    rintro cls rfl level above
    cases cls with
    | builtin kind =>
      obtain rfl := List.mem_singleton.1 above
      exact .builtin kind
    | _ => cases h

theorem allTraced_plain {value : Value} (h : value.making? = none) :
    AllTraced past fence scopes [value] :=
  allTraced_singleton (traced_of_making?_eq_none h)

/-- A closure as a value has the past of the closure. -/
theorem traced_closure {closure : Closure} (h : closure.Traced past fence scopes) :
    (callable (.closure closure)).Traced past fence scopes where
  closures _ carries := by
    cases carries
    exact h
  levels := nofun

/-- A bound method has the past of its closure. -/
theorem traced_bound {receiver : InstanceId} {closure : Closure}
    (h : closure.Traced past fence scopes) :
    (callable (.bound ⟨receiver, .declared closure⟩)).Traced past fence scopes where
  closures _ carries := by
    cases carries
    exact h
  levels := nofun

/-- A class that has just been made, below others. -/
theorem traced_class {cls : Class} (makes : past.Makes scopes cls)
    (own : ∀ name closure, cls.methods.get? name = some closure →
      scopes.Clear fence.closed closure.scope)
    (above : ∀ level ∈ cls.chain, level = cls ∨ ∃ superclass, level ∈ superclass.chain ∧
      (callable (.class superclass)).Traced past fence scopes) :
    (callable (.class cls)).Traced past fence scopes where
  closures closure carries := by
    cases carries with
    | @method _ level name _ mem found =>
      rcases above level mem with rfl | ⟨superclass, mem, traced⟩
      · exact ⟨own name closure found, .method makes found⟩
      · exact traced.closures closure (.method mem found)
  levels := by
    rintro _ ⟨⟩ level mem
    rcases above level mem with rfl | ⟨superclass, mem, traced⟩
    · exact makes
    · exact traced.levels superclass rfl level mem

/-- Data have no past to speak of, and a bound method that is built in has none either. -/
theorem harmless_traced (past : Past) (fence : Fence) (scopes : Scopes Value) :
    Harmless (Traced past fence scopes) where
  data value data := by
    refine traced_of_making?_eq_none ?_
    cases value with
    | callable callable => exact absurd rfl data
    | _ => rfl
  builtin _ := traced_of_making?_eq_none rfl

end Value

end Traced

/-! ## 3. States

A state is traced if everything kept in it is.  Behind an act it is traced again, and the scopes of
the fence bind what they did. -/

/-- All values in a state have a past, and the current scope is clear of those in the fence. -/
structure State.Traced (past : Past) (fence : Fence) (s : State) : Prop where
  within : s.Within (Value.Traced past fence s.scopes)
  ordered : s.scopes.Ordered
  clear : s.scopes.Clear fence.All s.scope
  there : ∀ n, fence.All n → n ≠ globalScope ∧ n < s.scopes.all.size

/-- A state has come after another one, and what the scopes in the fence bind has stayed as it
was. -/
structure State.Traces (past : Past) (fence : Fence) (s s' : State) : Prop where
  traced : s'.Traced past fence
  extended : s.scopes.Extends s'.scopes
  same : ∀ n, fence.All n → ∀ name, s'.scopes.get? n name = s.scopes.get? n name

section States

variable {past : Past} {fence : Fence} {s s' s'' : State}

namespace State.Traces

theorem refl (h : s.Traced past fence) : s.Traces past fence s :=
  ⟨h, .refl h.ordered, fun _ _ _ => rfl⟩

theorem trans (h : s.Traces past fence s') (h' : s'.Traces past fence s'') :
    s.Traces past fence s'' :=
  ⟨h'.traced, h.extended.trans h'.extended,
    fun n hn name => (h'.same n hn name).trans (h.same n hn name)⟩

end State.Traces

namespace State.Traced

/-- Only scopes, heap and the current scope count. -/
theorem of_same (h : s.Traced past fence) (scopes : s'.scopes = s.scopes)
    (heap : s'.heap = s.heap) (scope : s'.scope = s.scope) : s.Traces past fence s' := by
  have store : s'.store = s.store := by simp only [State.store, scopes, heap]
  refine ⟨⟨?_, ?_, ?_, ?_⟩, by rw [scopes]; exact .refl h.ordered, fun _ _ _ => by rw [scopes]⟩ <;>
    simp only [State.Within, store, scopes, scope]
  exacts [h.within, h.ordered, h.clear, h.there]

/-- Another clear scope becomes the current one. -/
theorem setScope (h : s.Traced past fence) {scope : ScopeId}
    (clear : s.scopes.Clear fence.All scope) : State.Traced past fence { s with scope := scope } :=
  ⟨h.within, h.ordered, clear, h.there⟩

/-- A scope is made in one that is there. -/
theorem newScope (h : s.Traced past fence) {enclosing : ScopeId}
    (lt : enclosing < s.scopes.all.size) :
    s.Traces past fence { s with scopes := (s.scopes.add (some enclosing)).2 } := by
  have extended := Scopes.Extends.add h.ordered (some enclosing)
  refine ⟨⟨?_, ?_, h.clear.mono extended, fun n hn => ?_⟩, extended, fun n _ name => ?_⟩
  · refine Store.holds_scopes (fun value held => (h.within value held).mono extended)
      fun scope name value found => ?_
    rw [Scopes.get?_add] at found
    exact (h.within value (.bound found)).mono extended
  · exact h.ordered.add fun outer mem => Option.some.inj mem ▸ lt
  · exact ⟨(h.there n hn).1, Nat.lt_of_lt_of_le (h.there n hn).2 extended.size⟩
  · exact Scopes.get?_add ..

/-- A name is bound in a scope that is not in the fence. -/
theorem define (h : s.Traced past fence) {scope : ScopeId} (unlike : ∀ n, fence.All n → scope ≠ n)
    (name : String) {value : Value} (hvalue : value.Traced past fence s.scopes) :
    s.Traces past fence { s with scopes := s.scopes.define scope name value } := by
  have extended := Scopes.Extends.define h.ordered scope name value
  refine ⟨⟨?_, h.ordered.define _ _ _, h.clear.mono extended, fun n hn => ?_⟩, extended,
    fun n hn other => ?_⟩
  · refine Store.holds_scopes (fun value held => (h.within value held).mono extended)
      fun other name' found hfound => ?_
    rw [Scopes.get?_define] at hfound
    split at hfound
    · cases hfound
      exact hvalue.mono extended
    · exact (h.within found (.bound hfound)).mono extended
  · exact ⟨(h.there n hn).1, Nat.lt_of_lt_of_le (h.there n hn).2 extended.size⟩
  · exact (Scopes.get?_define ..).trans (if_neg fun same => unlike n hn same.1)

end State.Traced

/-- An act that rearranges values with a past leaves all values with a past, and the scopes as they
are. -/
theorem State.Rearranges.traces (h : s.Rearranges (Value.Traced past fence s.scopes) s')
    (traced : s.Traced past fence) : s.Traces past fence s' := by
  refine ⟨⟨?_, ?_, ?_, ?_⟩, by rw [h.scopes]; exact .refl traced.ordered,
    fun _ _ _ => by rw [h.scopes]⟩ <;>
    simp only [h.scopes, h.scope]
  exacts [h.within, traced.ordered, traced.clear, traced.there]

end States

/-! ## 4. The regime

A regime is a notion of what holds of states and values along a run.  This one is that of `Traced`.
-/

/-- Values have a past, scopes are linked once, and what those in the fence bind stays as it is. -/
def tracing (past : Past) (fence : Fence) : Regime where
  leads := State.Traces past fence
  pre _ task s := s.Traced past fence ∧ Value.AllTraced past fence s.scopes task.values ∧
    ∀ closure arguments, task = .applyClosure closure arguments →
      closure.Traced past fence s.scopes
  gives task answer s' := Value.AllTraced past fence s'.scopes (task.answered answer)

section Rules

variable {past : Past} {fence : Fence} {history : Moment → Prop} {fuel : Nat}
  {α β : Type} {s s' : State}

/-- What there is to show for a script. -/
abbrev Script.Traces (past : Past) (fence : Fence) (history : Moment → Prop) (fuel : Nat)
    (script : Script α) (good : α → State → Prop) (s : State) : Prop :=
  script.Obeys (tracing past fence) history fuel s good s

/-- An act leads to a traced state, however it ends, and stays in the same scope. -/
def Eval.Traces (past : Past) (fence : Fence) (x : Eval α) (good : α → State → Prop)
    (s : State) : Prop :=
  Ends (x s) (fun v s' => s.Traces past fence s' ∧ s'.scope = s.scope ∧ good v s')
    fun _ s' => s.Traces past fence s'

namespace Eval.Traces

/-- As an act: whatever it answers is at hand already. -/
theorem of_rearranges (traced : s.Traced past fence) {x : Eval α} {good : α → State → Prop}
    (h : x.Rearranges (Value.Traced past fence s.scopes) good s) :
    Eval.Traces past fence x (fun v s' => good v s' ∧ s'.scopes = s.scopes) s :=
  Ends.imp h (fun _ _ h => ⟨h.1.traces traced, h.1.scope, h.2, h.1.scopes⟩)
    fun _ _ h => h.traces traced

/-- A name may be defined in any scope outside the fence. -/
theorem defineIn (traced : s.Traced past fence) {scope : ScopeId}
    (unlike : ∀ n, fence.All n → scope ≠ n) (name : String) {value : Value}
    (hvalue : value.Traced past fence s.scopes) :
    Eval.Traces past fence (Eval.defineIn scope name value) (fun _ _ => True) s :=
  ⟨traced.define unlike name hvalue, rfl, trivial⟩

theorem define (traced : s.Traced past fence) (name : String) {value : Value}
    (hvalue : value.Traced past fence s.scopes) :
    Eval.Traces past fence (Eval.define name value) (fun _ _ => True) s :=
  defineIn traced (fun _ hn => traced.clear.ne hn) name hvalue

/-- An assignment reaches a scope around the current one, or that of the globals. -/
theorem writeVariable (traced : s.Traced past fence) (target : Variable) {value : Value}
    (hvalue : value.Traced past fence s.scopes) :
    Eval.Traces past fence (Eval.writeVariable target value) (fun _ _ => True) s := by
  unfold Eval.writeVariable Eval.Traces
  dsimp only
  split
  · rename_i scope found
    refine ⟨traced.define (fun n hn => ?_) _ hvalue, rfl, trivial⟩
    obtain ⟨reached, -⟩ := Option.filter_eq_some_iff.1 found
    split at reached
    · rintro rfl
      exact traced.clear.outside _ hn ⟨_, reached⟩
    · cases reached
      exact (traced.there n hn).1.symm
  · exact .refl traced

/-- The parameters of a call are defined in its own scope. -/
theorem defineAll (traced : s.Traced past fence) {scope : ScopeId}
    (unlike : ∀ n, fence.All n → scope ≠ n) (params : List Name) {arguments : List Value}
    (harguments : Value.AllTraced past fence s.scopes arguments) :
    Eval.Traces past fence (Eval.defineAll scope params arguments) (fun _ _ => True) s := by
  induction params generalizing arguments s with
  | nil => exact ⟨.refl traced, rfl, trivial⟩
  | cons name rest ih =>
    cases arguments with
    | nil => exact ⟨.refl traced, rfl, trivial⟩
    | cons value values =>
      obtain ⟨given, others⟩ := List.forall_mem_cons.1 harguments
      have first := traced.define unlike name.text given
      have later := ih first.traced (Value.AllTraced.mono others first.extended)
      exact Ends.imp later (fun _ _ h => ⟨first.trans h.1, h.2⟩) fun _ _ h => first.trans h

end Eval.Traces

/-- The closures of methods are those of the last declarations under their names. -/
theorem Eval.newMethods_last (scope : ScopeId) (declarations : List FunDecl)
    (methods : Bindings Closure) (s : State) :
    ∃ found stamp, newMethods scope declarations methods s = .ok found { s with stamp := stamp } ∧
      ∀ name, (found.get? name).map Closure.declaration =
        (declarations.findRev? (·.name.text = name)).or
          ((methods.get? name).map Closure.declaration) ∧
        ∀ closure, found.get? name = some closure → methods.get? name = some closure ∨
          closure.scope = scope ∧ closure.isInitializer = closure.declaration.isInitializer := by
  induction declarations generalizing methods s with
  | nil => exact ⟨methods, s.stamp, rfl, fun name => ⟨rfl, fun closure found => .inl found⟩⟩
  | cons declaration rest ih =>
    obtain ⟨found, stamp, done, kept⟩ := ih
      (methods.insert declaration.name.text
        ⟨s.stamp, declaration, scope, declaration.isInitializer⟩) { s with stamp := s.stamp + 1 }
    refine ⟨found, stamp, done, fun name => ?_⟩
    obtain ⟨last, inScope⟩ := kept name
    rw [Bindings.get?_insert] at last inScope
    refine ⟨last.trans ?_, fun closure held => ?_⟩
    · simp only [List.findRev?_eq_find?_reverse, List.reverse_cons, List.find?_append,
        List.find?_singleton]
      by_cases same : declaration.name.text = name <;> simp [same]
    · rcases inScope closure held with given | made
      · split at given
        · cases given
          exact .inr ⟨rfl, rfl⟩
        · exact .inl given
      · exact .inr made

/-! ## 5. Rules for scripts

One rule for every way in which a script is put together.  The rules hand over the scopes that have
been made since. -/

/-- Whether a task runs the body of a closure itself. -/
def Task.runsClosure : Task → Bool
  | .applyClosure .. => true
  | _ => false

/-- A task that does not run a closure is not the one that does. -/
theorem Task.not_runs {task : Task} (plain : task.runsClosure = false) {closure : Closure}
    {arguments : List Value} {p : Prop} (same : task = .applyClosure closure arguments) : p := by
  subst same
  cases plain

namespace Script

/-- Scripts follow each other, and the second begins where the first ends. -/
theorem traces_bind {script : Script α} {f : α → Script β} {good : β → State → Prop}
    (h : script.Traces past fence history fuel
      (fun v s' => (f v).Traces past fence history fuel good s') s) :
    (script >>= f).Traces past fence history fuel good s :=
  obeys_bind (fun _ _ _ => State.Traces.trans) script s h

theorem traces_pure (traced : s.Traced past fence) {value : α} {good : α → State → Prop}
    (h : good value s) : (pure value : Script α).Traces past fence history fuel good s :=
  ⟨.refl traced, h⟩

/-- An act, with what it is shown to do. -/
theorem traces_doing {x : Eval α} {found good : α → State → Prop}
    (hx : x.Traces past fence found s)
    (h : ∀ v s', s.Traces past fence s' → s'.scope = s.scope → found v s' → good v s') :
    (doing x).Traces past fence history fuel good s :=
  Ends.imp hx (fun v s' hv => ⟨hv.1, h v s' hv.1 hv.2.1 hv.2.2⟩) fun _ _ hi => hi

/-- An act that leaves the scopes alone. -/
theorem traces_rearranging (traced : s.Traced past fence) {x : Eval α}
    {found good : α → State → Prop}
    (hx : x.Rearranges (Value.Traced past fence s.scopes) found s)
    (h : ∀ v s', s.Traces past fence s' → found v s' → s'.scopes = s.scopes → good v s') :
    (doing x).Traces past fence history fuel good s :=
  traces_doing (.of_rearranges traced hx) fun v s' traces _ hv => h v s' traces hv.1 hv.2

/-- Such an act, with an answer that has a past. -/
theorem traces_answering (traced : s.Traced past fence) {x : Eval Value}
    (hx : x.Rearranges (Value.Traced past fence s.scopes)
      (Eval.Rearranges.Good (Value.Traced past fence s.scopes)) s) :
    (doing x).Traces past fence history fuel
      (fun value s' => Value.AllTraced past fence s'.scopes [value]) s :=
  traces_rearranging traced hx fun _ _ _ h same => same ▸ Value.allTraced_singleton h

theorem traces_fail (traced : s.Traced past fence) {cause : RuntimeCause} {line : Nat}
    {good : α → State → Prop} :
    (doing (Eval.fail cause line : Eval α)).Traces past fence history fuel good s :=
  State.Traces.refl traced

/-- To look at the state changes nothing. -/
theorem traces_seeing (traced : s.Traced past fence) {view : State → α}
    {good : α → State → Prop} (h : good (view s) s) :
    (seeing view).Traces past fence history fuel good s :=
  ⟨.refl traced, h⟩

/-- A scope is made in one that is there; it is clear of what that one is clear of. -/
theorem traces_opening (traced : s.Traced past fence) {origin : ScopeOrigin}
    {enclosing : ScopeId} {good : ScopeId → State → Prop} (lt : enclosing < s.scopes.all.size)
    (h : ∀ s', history (.opens origin s) → s.Traces past fence s' → s'.scope = s.scope →
      s'.scopes.LiesIn s.scopes.all.size enclosing →
      (∀ others, (∀ n, others n → fence.All n) → s.scopes.Clear others enclosing →
        s'.scopes.Clear others s.scopes.all.size) →
      good s.scopes.all.size s') :
    (opening origin enclosing).Traces past fence history fuel good s := by
  intro opened
  have traces := traced.newScope lt
  refine ⟨traces, h _ opened traces rfl ?_ fun others himp clear => ?_⟩
  · exact (Scopes.enclosing?_add ..).trans (if_pos rfl)
  · exact clear.add traced.ordered fun n hn => (traced.there n (himp n hn)).2

/-- A new scope lies in the current one, and is clear of what the current one is clear of. -/
theorem traces_openScope (traced : s.Traced past fence) {origin : ScopeOrigin}
    {good : ScopeId → State → Prop}
    (h : ∀ s', history (.opens origin s) → s.Traces past fence s' → s'.scope = s.scope →
      s'.scopes.LiesIn s.scopes.all.size s.scope →
      s'.scopes.Clear fence.All s.scopes.all.size → good s.scopes.all.size s') :
    (openScope origin).Traces past fence history fuel good s :=
  traces_bind (traces_seeing traced (traces_opening traced traced.clear.lt_size
    fun s' opened traces same link clear => h s' opened traces same link
      (clear fence.All (fun _ hn => hn) traced.clear)))

/-- To call a task with values that have a past.  If it runs a closure, then that has one too, and
is not among those that are spared. -/
theorem traces_performing (traced : s.Traced past fence) {task : Task}
    {good : task.Answer → State → Prop} (given : Value.AllTraced past fence s.scopes task.values)
    (applied : ∀ closure arguments, task = .applyClosure closure arguments →
      closure.Traced past fence s.scopes)
    (h : ∀ v s', task.run fuel s = .ok v s' → s.Traces past fence s' → s'.scope = s.scope →
      Value.AllTraced past fence s'.scopes (task.answered v) → good v s') :
    (perform task).Traces past fence history fuel good s := by
  refine ⟨.refl traced, fun inner entered _ => ?_⟩
  cases entered
  refine ⟨⟨traced, given, applied⟩, fun v s' ran traces told => ⟨.refl traces.traced, ?_⟩⟩
  have place := task.keeps_run fuel s
  rw [ran] at place
  exact h v s' ran traces place.scope told

/-- A task is called that runs no closure itself. -/
theorem traces_perform (traced : s.Traced past fence) {task : Task}
    {good : task.Answer → State → Prop} (plain : task.runsClosure = false)
    (given : Value.AllTraced past fence s.scopes task.values)
    (h : ∀ v s', s.Traces past fence s' → Value.AllTraced past fence s'.scopes (task.answered v) →
      good v s') :
    (perform task).Traces past fence history fuel good s :=
  traces_performing traced given (fun _ _ => Task.not_runs plain)
    fun v s' _ traces _ told => h v s' traces told

/-- To call a task in another scope, which is clear. -/
theorem traces_performIn (traced : s.Traced past fence) {scope : ScopeId} {task : Task}
    {good : task.Answer → State → Prop} (plain : task.runsClosure = false)
    (clear : s.scopes.Clear fence.All scope)
    (given : Value.AllTraced past fence s.scopes task.values)
    (h : ∀ v s', s.Traces past fence s' → Value.AllTraced past fence s'.scopes (task.answered v) →
      good v s') :
    (performIn scope task).Traces past fence history fuel good s := by
  refine ⟨.refl traced, fun inner entered _ => ?_⟩
  cases entered
  exact ⟨⟨traced.setScope clear, given, fun _ _ => Task.not_runs plain⟩,
    fun v s' _ traces told => ⟨.refl traces.traced, h v _ traces told⟩⟩

/-- To call a value. -/
theorem traces_call (traced : s.Traced past fence) {task : Task} {line : Nat}
    {good : task.Answer → State → Prop} (plain : task.runsClosure = false)
    (given : Value.AllTraced past fence s.scopes task.values)
    (h : ∀ v s', s.Traces past fence s' → Value.AllTraced past fence s'.scopes (task.answered v) →
      good v s') :
    (Script.call (.call line) task .done).Traces past fence history fuel good s := by
  refine ⟨.refl traced, fun inner entered _ => ?_⟩
  simp only [Frame.enter] at entered
  split at entered
  · cases entered
  · cases entered
    have deeper : s.Traces past fence { s with depth := s.depth + 1 } :=
      traced.of_same rfl rfl rfl
    exact ⟨⟨deeper.traced, given, fun _ _ => Task.not_runs plain⟩,
      fun v s' _ traces told => ⟨.refl traces.traced, h v _ traces told⟩⟩

end Script

end Rules

end Lox
