/-
# Where the want of a payload is noticed

A built-in method fails for want of a payload only if the instance has none of the kind that the
class of the method asks for, and then it has changed nothing (`Eval.Wants.callMethod`).  No other
act fails so, nor do the loops that step an iterator, since they have looked at it before.  As an
interrupt goes through all tasks around, an evaluation that ends for want of a payload has come to
such a method (`Task.payload_wanted`).
-/
import Lox.Proofs.Eval.Forming
import Lox.Proofs.Eval.Quiet

namespace Lox

/-! ## 1. Built-in methods

A method looks for the payload of its receiver before it does anything else. -/

namespace Eval

variable {α β : Type} {self : InstanceId} {good : Payload → Prop}

/-- If an act fails for want of a payload, it has changed nothing, and the payload of the instance,
if there is one, is not a good one. -/
def Wants (self : InstanceId) (good : Payload → Prop) (x : Eval α) : Prop :=
  ∀ s interrupt s', x s = .error interrupt s' → interrupt.Uninitialized →
    s' = s ∧ ∀ payload, s.heap.payload? self = some payload → ¬ good payload

namespace Wants

/-- An act that does not look for a payload does not miss one. -/
theorem of_provided {x : Eval α} (h : x.Provided) : Wants self good x :=
  fun s interrupt s' failed uninitialized => absurd uninitialized (h s interrupt s' failed)

/-- What is looked for may be put in a weaker form. -/
theorem imp {good' : Payload → Prop} {x : Eval α} (h : Wants self good x)
    (himp : ∀ payload, good' payload → good payload) : Wants self good' x := by
  intro s interrupt s' failed uninitialized
  obtain ⟨same, bad⟩ := h s interrupt s' failed uninitialized
  exact ⟨same, fun payload found hgood => bad payload found (himp payload hgood)⟩

/-- The payload is looked for first, and nothing else is behind it. -/
theorem bind {x : Eval α} {f : α → Eval β} (hx : Wants self good x)
    (hf : ∀ v, (f v).Provided) : Wants self good (x >>= f) := by
  intro s interrupt s' failed uninitialized
  cases hs : x s with
  | ok v t =>
    exact absurd uninitialized (hf v t interrupt s' ((bind_of_ok hs f).symm.trans failed))
  | error interrupt' t =>
    cases (bind_of_error hs f).symm.trans failed
    exact hx s _ _ hs uninitialized

/-- What is not a list has no storage. -/
theorem listStorage (self : InstanceId) (line : Nat) :
    Wants self (·.kind = .list) (Eval.listStorage self line) := by
  intro s interrupt s' failed _
  rw [Eval.listStorage, look_bind] at failed
  have unchanged : s' = s := by
    cases found : s.heap.payload? self with
    | none =>
      rw [found] at failed
      cases failed
      rfl
    | some payload =>
      rw [found] at failed
      cases payload <;> cases failed <;> rfl
  refine ⟨unchanged, fun payload found kind => ?_⟩
  obtain ⟨storage, rfl⟩ := Payload.eq_list_of_kind kind
  rw [found] at failed
  cases failed

/-- What is not a linked list has no chain. -/
theorem linkedChain (self : InstanceId) (line : Nat) :
    Wants self (·.kind = .linkedList) (Eval.linkedChain self line) := by
  intro s interrupt s' failed _
  rw [Eval.linkedChain, look_bind] at failed
  have unchanged : s' = s := by
    cases found : s.heap.payload? self with
    | none =>
      rw [found] at failed
      cases failed
      rfl
    | some payload =>
      rw [found] at failed
      cases payload <;> cases failed <;> rfl
  refine ⟨unchanged, fun payload found kind => ?_⟩
  obtain ⟨chain, rfl⟩ := Payload.eq_linkedList_of_kind kind
  rw [found] at failed
  cases failed

/-- What is not an iterator cannot be stepped. -/
theorem heldIterator (self : InstanceId) (line : Nat) :
    Wants self (.hasItems ∈ ·.kind.methods) (Eval.heldIterator self line) := by
  intro s interrupt s' failed _
  rw [Eval.heldIterator, look_bind] at failed
  cases held : s.heap.iterator? self with
  | some iterator =>
    rw [held] at failed
    cases failed
  | none =>
    rw [held] at failed
    cases failed
    refine ⟨rfl, fun payload found methods => ?_⟩
    obtain ⟨iterator, rfl⟩ := Payload.eq_iterator_of_kind methods
    cases held.symm.trans (Heap.iterator?_eq_some.2 found)

/-- An iterator that an instance holds is found. -/
theorem not_of_held {x : Eval α} (h : Wants self (.hasItems ∈ ·.kind.methods) x) {s s' : State}
    (held : (s.heap.iterator? self).isSome) {interrupt : Interrupt}
    (failed : x s = .error interrupt s') : ¬ interrupt.Uninitialized := by
  intro uninitialized
  obtain ⟨iterator, found⟩ := Option.isSome_iff_exists.1 held
  exact (h s interrupt s' failed uninitialized).2 _ (Heap.iterator?_eq_some.1 found)
    iterator.hasItems_mem_methods

end Wants

/-- Checking an index does not look for a payload. -/
theorem Provided.index (storage : StorageId) (line : Nat) (place : Value) :
    Provided (Eval.index storage line place) := by
  unfold Eval.index
  split
  · split
    · exact .bind .get fun _ => .ite (.pure _) (.failBuiltin (by nofun) _)
    · exact .failBuiltin (by nofun) _
  · exact .failBuiltin (by nofun) _

theorem Provided.rangeBound (line : Nat) (bound : Value) :
    Provided (Eval.rangeBound line bound) := by
  unfold Eval.rangeBound
  split
  · exact .pure _
  · exact .failBuiltin (by nofun) _

/-- To change a chain is to look for it first. -/
theorem Wants.modifyChain (self : InstanceId) (line : Nat)
    (change : Nodes Value → Chain → Chain × Nodes Value) :
    Wants self (·.kind = .linkedList) (Eval.modifyChain self line change) :=
  .bind (.linkedChain self line) fun _ => .total fun _ => ⟨(), _, rfl⟩

/-- To ask an iterator is to look for it first. -/
theorem Wants.iteratorHasItems (self : InstanceId) (line : Nat) :
    Wants self (.hasItems ∈ ·.kind.methods) (Eval.iteratorHasItems self line) :=
  .bind (.heldIterator self line) fun _ => .bind .get fun _ => .pure _

theorem Wants.iteratorCurrent (self : InstanceId) (line : Nat) :
    Wants self (.hasItems ∈ ·.kind.methods) (Eval.iteratorCurrent self line) := by
  refine .bind (.heldIterator self line) fun _ => .bind .get fun _ => ?_
  split
  · exact .pure _
  · exact .failBuiltin (by nofun) _

theorem Wants.iteratorAdvance (self : InstanceId) (line : Nat) :
    Wants self (.hasItems ∈ ·.kind.methods) (Eval.iteratorAdvance self line) :=
  .bind (.heldIterator self line) fun _ => .total fun _ => ⟨(), _, rfl⟩

end Eval

/-- The methods of lists are those of no other class. -/
theorem BuiltinClass.eq_list_of_mem {kind : BuiltinClass} : ∀ {method : BuiltinMethod},
    method ∈ BuiltinClass.list.methods → method ∈ kind.methods → kind = .list := by
  suffices h : ∀ method ∈ BuiltinClass.list.methods, method ∈ kind.methods → kind = .list from @h
  cases kind <;> decide

/-- The methods of linked lists are those of no other class. -/
theorem BuiltinClass.eq_linkedList_of_mem {kind : BuiltinClass} : ∀ {method : BuiltinMethod},
    method ∈ BuiltinClass.linkedList.methods → method ∈ kind.methods → kind = .linkedList := by
  suffices h : ∀ method ∈ BuiltinClass.linkedList.methods, method ∈ kind.methods →
    kind = .linkedList from @h
  cases kind <;> decide

/-- A class with one of the methods of iterators has all of them. -/
theorem BuiltinClass.hasItems_mem {kind : BuiltinClass} : ∀ {method : BuiltinMethod},
    method ∈ BuiltinClass.listIterator.methods → method ∈ kind.methods →
      .hasItems ∈ kind.methods := by
  suffices h : ∀ method ∈ BuiltinClass.listIterator.methods, method ∈ kind.methods →
    .hasItems ∈ kind.methods from @h
  cases kind <;> decide

namespace Eval

/-- A built-in method that fails for want of a payload does not find one of the class that it is a
method of. -/
theorem Wants.callMethod (method : BuiltinMethod) (self : InstanceId) (arguments : List Value)
    (line : Nat) :
    Wants self (method ∈ ·.kind.methods) (Eval.callMethod method self arguments line) := by
  have list : ∀ {f : StorageId → Eval Value}, method ∈ BuiltinClass.list.methods →
      (∀ v, (f v).Provided) →
      Wants self (method ∈ ·.kind.methods) (Eval.listStorage self line >>= f) :=
    fun own hf => .imp (.bind (.listStorage self line) hf) fun _ => BuiltinClass.eq_list_of_mem own
  have linked : ∀ {f : Chain → Eval Value}, method ∈ BuiltinClass.linkedList.methods →
      (∀ v, (f v).Provided) →
      Wants self (method ∈ ·.kind.methods) (Eval.linkedChain self line >>= f) :=
    fun own hf => .imp (.bind (.linkedChain self line) hf)
      fun _ => BuiltinClass.eq_linkedList_of_mem own
  have iterator : ∀ {α : Type} {x : Eval α} {f : α → Eval Value},
      method ∈ BuiltinClass.listIterator.methods →
      Wants self (.hasItems ∈ ·.kind.methods) x → (∀ v, (f v).Provided) →
      Wants self (method ∈ ·.kind.methods) (x >>= f) :=
    fun own hx hf => .imp (.bind hx hf) fun _ => BuiltinClass.hasItems_mem own
  have changes : ∀ {change : Heap → Heap} {v : Value},
      Provided (do Eval.modifyHeap change; return v) :=
    .bind (.total fun _ => ⟨(), _, rfl⟩) fun _ => .pure _
  unfold Eval.callMethod
  split
  · exact .of_provided (.bind (.total fun _ => ⟨_, _, rfl⟩) fun _ => changes)
  · exact list (by decide) fun _ => changes
  · refine list (by decide) fun _ => .bind (.index _ _ _) fun _ => .bind .get fun _ => ?_
    split
    · exact .pure _
    · exact .failBuiltin (by nofun) _
  · exact list (by decide) fun _ => .bind (.index _ _ _) fun _ => changes
  · exact list (by decide) fun _ => .bind .get fun _ => .pure _
  · exact list (by decide) fun _ => .total fun _ => ⟨_, _, rfl⟩
  · exact .of_provided changes
  · exact .imp (.bind (.modifyChain self line _) fun _ => .pure _)
      fun _ => BuiltinClass.eq_linkedList_of_mem (by decide)
  · exact .imp (.bind (.modifyChain self line _) fun _ => .pure _)
      fun _ => BuiltinClass.eq_linkedList_of_mem (by decide)
  · exact linked (by decide) fun _ => .bind .get fun _ => .pure _
  · exact linked (by decide) fun _ => .bind .get fun _ => .pure _
  · exact linked (by decide) fun _ => .pure _
  · exact linked (by decide) fun _ => .total fun _ => ⟨_, _, rfl⟩
  · exact .of_provided (.bind (.rangeBound _ _) fun _ => .bind (.rangeBound _ _) fun _ =>
      .bind (.rangeBound _ _) fun _ => .ite (.failBuiltin (by nofun) _) changes)
  · exact .of_provided (.pure _)
  · exact iterator (by decide) (.iteratorHasItems self line) fun _ => .pure _
  · exact .imp (.iteratorCurrent self line) fun _ => BuiltinClass.hasItems_mem (by decide)
  · exact iterator (by decide) (.iteratorAdvance self line) fun _ => .pure _
  · exact .of_provided (.throw (by nofun))

/-- An initializer does not look for a payload. -/
theorem Provided.initializer {method : BuiltinMethod} (initializes : method.initializes)
    (self : InstanceId) (arguments : List Value) (line : Nat) :
    Provided (Eval.callMethod method self arguments line) := by
  have sets : ∀ {payload : Payload},
      Provided (do Eval.modifyHeap (·.setPayload self payload); return Value.inst self) :=
    .bind (.total fun _ => ⟨(), _, rfl⟩) fun _ => .pure _
  unfold Eval.callMethod
  split
  case h_1 => exact .bind (.total fun _ => ⟨_, _, rfl⟩) fun _ => sets
  case h_7 => exact sets
  case h_14 =>
    exact .bind (.rangeBound _ _) fun _ => .bind (.rangeBound _ _) fun _ =>
      .bind (.rangeBound _ _) fun _ => .ite (.failBuiltin (by nofun) _) sets
  case h_19 => exact .throw (by nofun)
  all_goals exact absurd initializes (by decide)

end Eval

/-! ## 2. Scripts and tasks

No script looks for a payload but that of a built-in method. -/

namespace Frame

/-- That too many calls are in progress is another reason to fail. -/
theorem enter_provided (frame : Frame) {s : State} {interrupt : Interrupt}
    (h : frame.enter s = .error interrupt) : ¬ interrupt.Uninitialized := by
  cases frame with
  | same | scope id => cases h
  | call line =>
    simp only [enter] at h
    split at h
    · cases h
      rintro ⟨_, ⟨⟩⟩
    · cases h

end Frame

/-- All acts of a script fail for other reasons than the want of a payload. -/
def Script.Provided {α : Type} : Script α → Prop
  | .done _ => True
  | .act (.plain action) next => action.Provided ∧ ∀ answer, (next answer).Provided
  | .act (.opening _ _) next => ∀ answer, (next answer).Provided
  | .call _ _ next => ∀ answer, (next answer).Provided

namespace Script

variable {α : Type} {script : Script α}

/-- A quiet script has no act that looks for a payload. -/
theorem Quiet.provided (h : script.Quiet) : script.Provided := by
  induction script with
  | done value => trivial
  | act action next ih =>
    cases action with
    | plain action => exact ⟨h.1, fun answer => ih answer (h.2 answer)⟩
    | opening origin enclosing => exact fun answer => ih answer (h answer)
  | call frame task next ih => exact fun answer => ih answer (h.2 answer)

/-- Neither has one that forwards. -/
theorem Forwards.provided {part : Task → Prop} {how : Value → α} (h : script.Forwards part how) :
    script.Provided := by
  induction script with
  | done value => trivial
  | act action next ih =>
    cases action with
    | plain action => exact ⟨h.1, fun answer => ih answer (h.2 answer)⟩
    | opening origin enclosing => exact fun answer => ih answer (h answer)
  | call frame task next ih => exact fun answer => ih answer (h.2 answer)

/-- If a script ends for want of a payload then so does a task that it calls. -/
theorem Provided.failed (h : script.Provided) {fuel : Nat} {s s' : State} {interrupt : Interrupt}
    (failed : script.run (Task.run fuel) s = .error interrupt s')
    (uninitialized : interrupt.Uninitialized) :
    ∃ task inner t, script.Passes fuel s (.begins fuel task inner) ∧
      task.run fuel inner = .error interrupt t ∧ t.heap = s'.heap := by
  induction script generalizing s with
  | done value => cases failed
  | act action next ih =>
    have rest : (∀ answer, (next answer).Provided) ∧ action.run.Provided := by
      cases action with
      | plain action => exact ⟨h.2, h.1⟩
      | opening origin enclosing => exact ⟨h, .total fun s => ⟨_, _, rfl⟩⟩
    change (action.run >>= _) s = _ at failed
    cases hs : action.run s with
    | error interrupt' t =>
      cases (Eval.bind_of_error hs _).symm.trans failed
      exact absurd uninitialized (rest.2 s _ _ hs)
    | ok answer t =>
      rw [Eval.bind_of_ok hs] at failed
      obtain ⟨task, inner, t', passes, found⟩ := ih answer (rest.1 answer) failed
      exact ⟨task, inner, t', .act hs passes, found⟩
  | call frame task next ih =>
    change (frame.around (task.run fuel) >>= _) s = _ at failed
    have around := frame.around_eq (task.run fuel) s
    cases entered : frame.enter s with
    | error interrupt' =>
      rw [entered] at around
      cases (Eval.bind_of_error around _).symm.trans failed
      exact absurd uninitialized (frame.enter_provided entered)
    | ok inner =>
      rw [entered] at around
      dsimp only at around
      cases ran : task.run fuel inner with
      | error interrupt' t =>
        rw [ran] at around
        cases (Eval.bind_of_error around _).symm.trans failed
        exact ⟨task, inner, t, .begins entered, ran, (frame.heap_leave s t).symm⟩
      | ok answer t =>
        rw [ran] at around
        rw [Eval.bind_of_ok around] at failed
        obtain ⟨task', inner', t', passes, found⟩ := ih answer (h answer) failed
        exact ⟨task', inner', t', .call around passes, found⟩

end Script

/-- Only methods and iterators of built-in classes look for payloads. -/
theorem Task.provided_script {task : Task} (h : ¬ task.LooksForPayload) :
    task.script.Provided := by
  cases statement : task.returned? with
  | some how => exact (forwards_script statement).provided
  | none =>
    by_cases closed : ∃ closure arguments, task = .applyClosure closure arguments
    · obtain ⟨closure, arguments, rfl⟩ := closed
      exact fun scope => ⟨.defineAll _ _ _, fun _ => fun _ => ⟨.callResult _ _, fun _ => trivial⟩⟩
    · exact (quiet_script statement (fun closure arguments same =>
        closed ⟨closure, arguments, same⟩) h).provided

/-- An evaluation that ends for want of a payload has come to a task that looks for one. -/
theorem Task.failed {fuel : Nat} {task : Task} {s s' : State} {interrupt : Interrupt}
    (failed : task.run fuel s = .error interrupt s') (uninitialized : interrupt.Uninitialized) :
    ∃ n looking t t', Moment.Reaches (.begins fuel task s) (.begins (n + 1) looking t) ∧
      looking.LooksForPayload ∧ looking.run (n + 1) t = .error interrupt t' ∧
      t'.heap = s'.heap := by
  induction fuel generalizing task s s' with
  | zero =>
    rw [run_zero] at failed
    cases failed
    obtain ⟨line, ⟨⟩⟩ := uninitialized
  | succ fuel ih =>
    by_cases looks : task.LooksForPayload
    · exact ⟨fuel, task, s, s', .refl, looks, failed, rfl⟩
    · have ran := failed
      rw [run_succ] at ran
      obtain ⟨inner, t, t', passes, failed', same⟩ :=
        (provided_script looks).failed ran uninitialized
      obtain ⟨n, looking, u, u', reaches, found, failed'', same'⟩ := ih failed'
      exact ⟨n, looking, u, u', .head (.mk passes) reaches, found, failed'', same'.trans same⟩

/-! ## 3. Formed states

In a formed state an instance lacks its payload only as long as no initializer has answered. -/

/-- A method of a built-in class is to be run on an instance without a payload: the class of the
instance is declared, and stands below the built-in one. -/
structure Heap.Unset (heap : Heap) (receiver : InstanceId) (method : BuiltinMethod) : Prop where
  root : ∃ cls kind, heap.class? receiver = some cls ∧ cls.isBuiltin = false ∧
    cls.root? = some kind ∧ method ∈ kind.methods
  payload : heap.payload? receiver = none

/-- **A payload is wanted** only where a method other than the initializer is called on an instance
of a declared class, which has none. -/
theorem Task.LooksForPayload.failed {past : Past} {n : Nat} {task : Task} {s s' : State}
    {interrupt : Interrupt} (looks : task.LooksForPayload) (formed : s.Formed past)
    (given : task.Given s.store) (failed : task.run (n + 1) s = .error interrupt s')
    (uninitialized : interrupt.Uninitialized) :
    ∃ self method arguments line, task = .applyMethod ⟨self, .builtin method⟩ arguments line ∧
      method.initializes = false ∧ s.heap.Unset self method ∧ s' = s := by
  cases task with
  | applyMethod method arguments line =>
    obtain ⟨self, method⟩ := method
    cases method with
    | declared closure => cases looks
    | builtin method =>
      change Eval.applyMethod (n + 1) _ _ _ s = _ at failed
      rw [Eval.applyMethod] at failed
      obtain ⟨rfl, other⟩ := Eval.Wants.callMethod method self arguments line s _ _ failed
        uninitialized
      have later : method.initializes = false := by
        rw [← Bool.not_eq_true]
        exact fun initializes => Eval.Provided.initializer initializes self arguments line s' _ _
          failed uninitialized
      obtain ⟨⟨cls, kind, hcls, root, mem⟩, complete⟩ := given.1
      have none : s'.heap.payload? self = none := by
        cases found : s'.heap.payload? self with
        | none => rfl
        | some payload =>
          obtain ⟨cls', hcls', root'⟩ := formed.heap.payloads self payload found
          obtain rfl := Option.some.inj (hcls.symm.trans hcls')
          obtain rfl := Option.some.inj (root.symm.trans root')
          exact absurd mem (other payload found)
      refine ⟨self, method, arguments, line, rfl, later, ⟨⟨cls, kind, hcls, ?_, root, mem⟩, none⟩,
        rfl⟩
      have complete := complete.resolve_right (by
        rintro ⟨_, ⟨⟩, initializes⟩
        exact Bool.false_ne_true (later.symm.trans initializes))
      obtain ⟨cls', hcls', set⟩ := complete
      obtain rfl := Option.some.inj (hcls.symm.trans hcls')
      rw [← Bool.not_eq_true]
      intro builtin
      have isSome := set builtin
      change (s'.heap.payload? self).isSome at isSome
      rw [none] at isSome
      cases isSome
  | cursorHasItems cursor line =>
    cases cursor with
    | protocol iterator => cases looks
    | direct id =>
      simp only [Task.run, Eval.cursorHasItems] at failed
      exact absurd uninitialized ((Eval.Wants.iteratorHasItems id line).not_of_held given failed)
  | cursorCurrent cursor line =>
    cases cursor with
    | protocol iterator => cases looks
    | direct id =>
      simp only [Task.run, Eval.cursorCurrent] at failed
      exact absurd uninitialized ((Eval.Wants.iteratorCurrent id line).not_of_held given failed)
  | cursorAdvance cursor line =>
    cases cursor with
    | protocol iterator => cases looks
    | direct id =>
      simp only [Task.run, Eval.cursorAdvance] at failed
      exact absurd uninitialized ((Eval.Wants.iteratorAdvance id line).not_of_held given failed)
  | _ => cases looks

end Lox
