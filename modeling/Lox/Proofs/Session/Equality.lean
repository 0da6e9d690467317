/-
# Equal callables are the same

Whatever a session brings up, in its states, as what a task is given or as what it answers
(`Course.BringsUp`), is found in one register (`Course.register`).  So functions and classes that
are equal, which have the same stamp, are the same; and so are declared methods that have been
bound.  Built-in methods are equal if they have the same name and the same receiver.  They are the
same method, since both are methods of the one built-in class that is at the root of the class of
the receiver, and no class has two methods of one name.

* `equal_callables_are_interchangeable`: equality is an equivalence, and equal callables that a
  session brings up do the same when they are called.
-/
import Mathlib
import Lox.Proofs.Eval.Registering
import Lox.Proofs.Eval.Trace
import Lox.Proofs.Session.Payload
import Lox.Proofs.Value.Equality

namespace Lox

/-! ## 1. What a session brings up -/

/-- A value turns up in a session. -/
inductive Course.BringsUp (course : Course) : Value → Prop where
  | held {s : State} {value : Value} (reached : course.Reached s) (holds : s.store.Holds value) :
      BringsUp course value
  | given {fuel : Nat} {task : Task} {s : State} {value : Value}
      (begun : course.past.moments (.begins fuel task s)) (mem : value ∈ task.values) :
      BringsUp course value
  | answered {fuel : Nat} {task : Task} {s s' : State} {answer : task.Answer} {value : Value}
      (begun : course.past.moments (.begins fuel task s))
      (ran : task.run fuel s = .ok answer s') (mem : value ∈ task.answered answer) :
      BringsUp course value

/-- At first nothing has a stamp. -/
theorem State.registered_initial (input : Input) (room : Option Nat) (clock : Nat) :
    (State.initial input room clock).Registered .empty where
  within value holds := by
    cases holds with
    | bound found =>
      have among := @mem_globals_of_get? input room clock _ _ _ found
      rcases builtin_of_mem_globals among with ⟨_, rfl⟩ | ⟨_, rfl⟩ <;>
        exact Value.registered_of_making?_eq_none rfl
    | field found => cases found
    | item found => cases found
    | element found => cases found
    | «class» found => cases found
  below _ _ found := by cases found

section Session

variable {input : Input} {room : Option Nat} {clock : Nat} {commands : List Command}

/-- **One register has all that a session brings up.** -/
theorem Course.register (input : Input) (room : Option Nat) (clock : Nat)
    (commands : List Command) :
    ∃ r : Register, ∀ value, ((Course.new input room clock).follow commands).BringsUp value →
      value.Registered r := by
  obtain ⟨r, known, covers⟩ := registering_sound.course
    (fun _ _ => Value.allRegistered_nil)
    (fun _ _ _ h scopes heap stamp => h.of_same scopes heap (Nat.le_of_eq stamp.symm))
    (State.registered_initial input room clock) commands
  refine ⟨r, fun value up => ?_⟩
  cases up with
  | held reached holds =>
    cases reached with
    | last => exact known.within value holds
    | begins begun =>
      obtain ⟨⟨earlier, le, here, -⟩, -⟩ := covers _ _ _ begun
      exact (here.within value holds).mono le
    | ends begun =>
      obtain ⟨-, ends⟩ := covers _ _ _ begun
      obtain ⟨earlier, le, there⟩ : ∃ earlier ≤ r, State.Registered earlier _ :=
        Ends.holds_endState (Ends.imp ends (fun _ _ ⟨w, le, h⟩ => ⟨w, le, h.1⟩) fun _ _ h => h)
      exact (there.within value holds).mono le
  | given begun mem =>
    obtain ⟨⟨earlier, le, -, given⟩, -⟩ := covers _ _ _ begun
    exact (given value mem).mono le
  | answered begun ran mem =>
    obtain ⟨-, ends⟩ := covers _ _ _ begun
    rw [ran] at ends
    obtain ⟨earlier, le, -, told⟩ := ends
    exact (told value mem).mono le

/-! ## 2. Built-in methods -/

/-- No built-in class has two methods of one name. -/
theorem BuiltinClass.eq_of_name {kind : BuiltinClass} : ∀ {method method' : BuiltinMethod},
    method ∈ kind.methods → method' ∈ kind.methods → method.name = method'.name →
      method = method' := by
  suffices h : ∀ method ∈ kind.methods, ∀ method' ∈ kind.methods, method.name = method'.name →
    method = method' from fun {_ _} mem mem' => h _ mem _ mem'
  cases kind <;> decide

theorem BuiltinFunction.eq_of_name {function function' : BuiltinFunction}
    (h : function.name = function'.name) : function = function' := by
  revert h
  cases function <;> cases function' <;> decide

/-- Built-in methods of one instance that have the same name are the same. -/
theorem Method.Suits.eq_of_name {heap : Heap} {receiver : InstanceId}
    {method method' : BuiltinMethod} (h : (Method.builtin method).Suits heap receiver)
    (h' : (Method.builtin method').Suits heap receiver) (named : method.name = method'.name) :
    method = method' := by
  obtain ⟨cls, kind, found, root, mem⟩ := h
  obtain ⟨cls', kind', found', root', mem'⟩ := h'
  obtain rfl := Option.some.inj (found.symm.trans found')
  obtain rfl := Option.some.inj (root.symm.trans root')
  exact BuiltinClass.eq_of_name mem mem' named

/-- A bound method suits its receiver where it is given to a task. -/
theorem Task.Given.suits {σ : Store} {task : Task} (given : task.Given σ) {bound : BoundMethod}
    (mem : .callable (.bound bound) ∈ task.values) :
    bound.method.Suits σ.heap bound.receiver := by
  have formed : ∀ {values : List Value}, Value.AllFormed σ.heap values →
      .callable (.bound bound) ∈ values → bound.method.Suits σ.heap bound.receiver :=
    fun all mem => BoundMethod.Formed.suits (all _ mem)
  have cursors : ∀ {cursor : Cursor}, cursor.Formed σ.heap →
      .callable (.bound bound) ∈ cursor.values → bound.method.Suits σ.heap bound.receiver := by
    rintro (iterator | iterator) h mem <;> cases List.mem_singleton.1 mem
    exact BoundMethod.Formed.suits h
  cases task with
  | call callee arguments line | apply callable arguments line
  | invoke receiver name arguments line => exact formed given mem
  | applyMethod method arguments line =>
    rcases List.mem_cons.1 mem with same | mem
    · cases same
      exact given.1.suits
    · exact formed given.2 mem
  | applyClosure closure arguments => exact formed given.2 mem
  | forEach cursor line name body | cursorHasItems cursor line | cursorCurrent cursor line
  | cursorAdvance cursor line => exact cursors given mem
  | _ => cases mem

/-- And where it is the answer. -/
theorem Task.Yields.suits {heap : Heap} {task : Task} {answer : task.Answer}
    (yields : task.Yields heap answer) {bound : BoundMethod}
    (mem : .callable (.bound bound) ∈ task.answered answer) :
    bound.method.Suits heap bound.receiver := by
  have one : ∀ {value : Value}, value.Formed heap → .callable (.bound bound) ∈ [value] →
      bound.method.Suits heap bound.receiver := by
    intro value formed mem
    cases List.mem_singleton.1 mem
    exact BoundMethod.Formed.suits formed
  have completed : ∀ {completion : Completion}, completion.value.Formed heap →
      .callable (.bound bound) ∈ completion.values → bound.method.Suits heap bound.receiver := by
    rintro (_ | value) formed mem
    · cases mem
    · exact one formed mem
  cases task with
  | applyMethod method arguments line => exact one yields.1 mem
  | evalAll es => exact BoundMethod.Formed.suits (yields _ mem)
  | exec st | execAll body | whileLoop condition body | forEach cursor line name body =>
    exact completed yields mem
  | cursorHasItems cursor line | cursorAdvance cursor line => cases mem
  | _ => exact one yields mem

/-- And where a store holds it. -/
theorem State.Formed.suits_of_holds {past : Past} {s : State} (formed : s.Formed past)
    {bound : BoundMethod} (holds : s.store.Holds (.callable (.bound bound))) :
    bound.method.Suits s.heap bound.receiver := by
  suffices h : ∀ value, s.store.Holds value → value = .callable (.bound bound) →
    bound.method.Suits s.heap bound.receiver from h _ holds rfl
  rintro value (found | found | found | found | found) same
  · exact (same ▸ formed.bound _ _ _ found :).suits
  · exact (same ▸ formed.heap.fields _ _ _ found :).suits
  · exact (same ▸ formed.heap.items _ _ _ found :).suits
  · exact (same ▸ formed.heap.elements _ _ found :).suits
  · cases same

/-- A bound method that a session brings up suits its receiver at the end of the session. -/
theorem Course.BringsUp.suits {bound : BoundMethod}
    (up : ((Course.new input room clock).follow commands).BringsUp (.callable (.bound bound))) :
    bound.method.Suits ((Course.new input room clock).follow commands).session.state.heap
      bound.receiver := by
  have formed := Course.formed input room clock commands
  cases up with
  | held reached holds =>
    rename_i s
    have here : bound.method.Suits s.heap bound.receiver :=
      (Course.formed_of_reached reached).suits_of_holds holds
    cases reached with
    | last => exact here
    | begins begun => exact here.mono (formed.settles _ _ _ begun).1.2.grows
    | ends begun => exact here.mono (formed.settles _ _ _ begun).2.grows
  | given begun mem =>
    obtain ⟨⟨⟨-, given⟩, leads⟩, -⟩ := formed.settles _ _ _ begun
    exact (given.suits mem).mono leads.grows
  | answered begun ran mem =>
    have ends := Course.forms begun
    have leads := (formed.settles _ _ _ begun).2
    rw [ran] at ends leads
    exact (Task.Yields.suits ends.2 mem).mono leads.grows

/-! ## 3. Callables -/

/-- Equal callables that a session brings up are the same. -/
theorem Course.eq_of_same {f g : Callable}
    (hf : ((Course.new input room clock).follow commands).BringsUp (.callable f))
    (hg : ((Course.new input room clock).follow commands).BringsUp (.callable g))
    (same : f.same g = true) : f = g := by
  obtain ⟨r, known⟩ := Course.register input room clock commands
  -- what has the same stamp is the making of the same thing
  have made : ∀ stamp {found found'}, (Value.callable f).making? = some (stamp, found) →
      (Value.callable g).making? = some (stamp, found') → found = found' := fun _ _ _ first second =>
    Option.some.inj ((known _ hf _ _ first).symm.trans (known _ hg _ _ second))
  have marks := Callable.same_iff.1 same
  rcases f with function | closure | ⟨receiver, method | closure⟩ | (kind | info | ⟨info, superclass⟩)
    <;> rcases g with function' | closure' | ⟨receiver', method' | closure'⟩ |
      (kind' | info' | ⟨info', superclass'⟩)
    <;> simp only [Callable.mark, reduceCtorEq, Callable.Mark.function.injEq,
      Callable.Mark.closure.injEq, Callable.Mark.builtinMethod.injEq,
      Callable.Mark.declaredMethod.injEq, Callable.Mark.builtinClass.injEq,
      Callable.Mark.baseClass.injEq, Callable.Mark.derivedClass.injEq] at marks
  case builtin.builtin => exact congrArg _ (BuiltinFunction.eq_of_name marks)
  case closure.closure =>
    cases made closure.stamp rfl (by rw [marks]; rfl)
    rfl
  case bound.builtin.bound.builtin =>
    obtain ⟨rfl, names⟩ := marks
    rw [Method.Suits.eq_of_name hf.suits hg.suits names]
  case bound.declared.bound.declared =>
    obtain ⟨rfl, stamps⟩ := marks
    cases made closure.stamp rfl (by rw [stamps]; rfl)
    rfl
  case class.builtin.class.builtin => rw [marks]
  case class.base.class.base | class.derived.class.derived =>
    cases made info.stamp rfl (by rw [marks]; rfl)
    rfl

/-- **Equality is an equivalence, and equal callables are interchangeable.**  Equality of values is
symmetric and transitive, and it is reflexive on all values but those that are not numbers though
of their type.  Callables that a session brings up, at whatever times, and that are equal are the
same: calling either of them with the same arguments in the same state gives the same result, the
same output and the same state. -/
theorem equal_callables_are_interchangeable (input : Input) (room : Option Nat) (clock : Nat)
    (commands : List Command) :
    (∀ a b : Value, a.equals b = true → b.equals a = true) ∧
    (∀ a b c : Value, a.equals b = true → b.equals c = true → a.equals c = true) ∧
    (∀ a : Value, a.equals a = true ↔ ¬ a.IsNaN) ∧
    ∀ f g : Callable,
      ((Course.new input room clock).follow commands).BringsUp (.callable f) →
      ((Course.new input room clock).follow commands).BringsUp (.callable g) →
      (Value.callable f).equals (.callable g) = true →
      f = g ∧ ∀ fuel arguments line s,
        Eval.call fuel (.callable f) arguments line s =
          Eval.call fuel (.callable g) arguments line s := by
  refine ⟨fun _ _ => Value.equals_symm, fun _ _ _ => Value.equals_trans, Value.equals_self,
    fun f g hf hg same => ?_⟩
  obtain rfl := Course.eq_of_same hf hg same
  exact ⟨rfl, fun _ _ _ _ => rfl⟩

end Session

namespace Aliases

/-- A method of a list is read twice, each time by another name of the list. -/
def text : String :=
  "var l = [nil]; var k = l; var a = l.size; var b = k.size;"

def course : Course :=
  (Course.new ⟨[], true⟩ none 0).follow [.run 20 text]

/-- The variable has the method of the size of the first instance. -/
def hasSize (name : String) : Bool :=
  match course.session.state.scopes.get? 0 name with
  | some (.callable (.bound ⟨0, .builtin .listSize⟩)) => true
  | _ => false

theorem bringsUp {name : String} (h : hasSize name = true) :
    course.BringsUp (.callable (.bound ⟨0, .builtin .listSize⟩)) := by
  unfold hasSize at h
  split at h
  · exact .held .last (.bound ‹_›)
  · cases h

end Aliases

/-- What has been read is the same method both times, and calling either gives the size. -/
theorem aliased_methods_are_interchangeable :
    Aliases.hasSize "a" = true ∧ Aliases.hasSize "b" = true ∧
    ∃ f g, Aliases.course.BringsUp (.callable f) ∧ Aliases.course.BringsUp (.callable g) ∧
      (Value.callable f).equals (.callable g) = true ∧
      ∀ fuel arguments line s, Eval.call fuel (.callable f) arguments line s =
        Eval.call fuel (.callable g) arguments line s := by
  have a : Aliases.hasSize "a" = true := by decide +kernel
  have b : Aliases.hasSize "b" = true := by decide +kernel
  have same : (Value.callable (.bound ⟨0, .builtin .listSize⟩)).equals
      (.callable (.bound ⟨0, .builtin .listSize⟩)) = true := by decide
  obtain ⟨-, -, -, alike⟩ :=
    equal_callables_are_interchangeable ⟨[], true⟩ none 0 [.run 20 Aliases.text]
  exact ⟨a, b, _, _, Aliases.bringsUp a, Aliases.bringsUp b, same,
    (alike _ _ (Aliases.bringsUp a) (Aliases.bringsUp b) same).2⟩

end Lox
