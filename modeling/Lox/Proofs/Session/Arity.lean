/-
# Built-ins get the arguments they take

A callable is applied after its arguments have been counted, and all that is done with them then,
down to the built-in method that an inherited initializer is, takes as many (`Task.Fits`).  So no
evaluation of a session ends with the interrupt `misuse` (`Task.not_misuse`).  The places at which
the methods of lists read and write are those of elements.

Main statement: `builtins_get_their_arguments`.
-/
import Mathlib
import Lox.Proofs.Session.Texts
import Lox.Proofs.Eval.Trace

namespace Lox

/-! ## 1. No misuse -/

/-- **No fitting task misuses a built-in.** -/
theorem Task.not_misuse {task : Task} (fits : task.Fits) (fuel : Nat) (s s' : State) :
    task.run fuel s ≠ .error .misuse s' := by
  induction fuel generalizing task s s' with
  | zero =>
    rw [run_zero]
    rintro ⟨⟩
  | succ fuel ih =>
    intro failed
    rw [run_succ] at failed
    rcases (fitting_script fits).failed failed id with
      ⟨-, line, ⟨⟩⟩ | ⟨other, inner, t, passes, failed⟩
    exact ih ((fitting_script fits).fits passes) inner t failed

theorem Eval.run_not_misuse (fuel : Nat) (program : List Stmt) (s s' : State) :
    Eval.run fuel program s ≠ .error .misuse s' := by
  have fitting := (Script.detached_ofProgram program).fitting
  intro failed
  rw [← Script.run_ofProgram] at failed
  rcases fitting.failed failed id with ⟨⟨⟩, -⟩ | ⟨task, inner, t, passes, failed⟩
  exact Task.not_misuse (fitting.fits passes) fuel inner t failed

/-! ## 2. The elements of lists -/

namespace Heap

theorem item?_isSome (heap : Heap) (storage : StorageId) (index : Nat) :
    (heap.item? storage index).isSome = decide (index < heap.storageSize storage) := by
  unfold item? storageSize
  cases heap.storages[storage]? with
  | none => rfl
  | some items =>
    rw [Bool.eq_iff_iff, Option.isSome_iff_ne_none]
    simp

/-- An iterator of a list has items just if it stands at one. -/
theorem hasItems_list (heap : Heap) (storage : StorageId) (position : Nat) :
    heap.hasItems (.list storage position) = (heap.item? storage position).isSome :=
  (heap.item?_isSome storage position).symm

end Heap

namespace Eval

/-- What is given as a place in a list is one, or an error that changes nothing. -/
theorem index_cases (storage : StorageId) (line : Nat) (place : Value) (s : State) :
    (∃ cause, index storage line place s = .error (.error ⟨.builtin cause, line⟩) s) ∨
      ∃ x i v, place = .number x ∧ (Decimal.Binary.ofFloat x).toNat? = some i ∧
        s.heap.item? storage i = some v ∧ index storage line place s = .ok i s := by
  cases place with
  | number x =>
    unfold index
    dsimp only
    cases whole : (Decimal.Binary.ofFloat x).toNat? with
    | none => exact .inl ⟨_, rfl⟩
    | some i =>
      dsimp only
      rw [look_bind]
      have isSome := s.heap.item?_isSome storage i
      by_cases small : i < s.heap.storageSize storage
      · rw [decide_eq_true small] at isSome
        obtain ⟨v, found⟩ := Option.isSome_iff_exists.1 isSome
        rw [if_pos small]
        exact .inr ⟨x, i, v, rfl, whole, found, rfl⟩
      · rw [if_neg small]
        exact .inl ⟨_, rfl⟩
  | _ => exact .inl ⟨_, rfl⟩

theorem listStorage_cases (self : InstanceId) (line : Nat) (s : State) :
    listStorage self line s = .error (.error ⟨.builtin .uninitialized, line⟩) s ∨
      ∃ storage, s.heap.payload? self = some (.list storage) ∧
        listStorage self line s = .ok storage s := by
  rw [listStorage, look_bind]
  cases s.heap.payload? self with
  | none => exact .inl rfl
  | some payload =>
    cases payload with
    | list storage => exact .inr ⟨storage, rfl, rfl⟩
    | _ => exact .inl rfl

/-- The element at a place in a list. -/
def itemAt (line : Nat) (storage : StorageId) (i : Nat) : Eval Value := do
  match (← get).heap.item? storage i with
  | some value => return value
  | none => failBuiltin .indexOutOfRange line

/-- A place in the list that an instance holds is that of an element, or else nothing changes. -/
theorem place_cases (self : InstanceId) (line : Nat) (place : Value)
    (f : StorageId → Nat → Eval Value) (s : State) :
    let access : Eval Value := do
      let storage ← listStorage self line
      let i ← index storage line place
      f storage i
    (∃ cause, access s = .error (.error ⟨.builtin cause, line⟩) s) ∨
      ∃ storage x i v, s.heap.payload? self = some (.list storage) ∧ place = .number x ∧
        (Decimal.Binary.ofFloat x).toNat? = some i ∧ s.heap.item? storage i = some v ∧
        access s = f storage i s := by
  intro access
  rcases listStorage_cases self line s with failed | ⟨storage, held, stored⟩
  · exact .inl ⟨_, bind_of_error failed _⟩
  · have taken : access s = (index storage line place >>= f storage) s := bind_of_ok stored _
    rcases index_cases storage line place s with
      ⟨cause, failed⟩ | ⟨x, i, v, number, whole, found, ok⟩
    · exact .inl ⟨cause, taken.trans (bind_of_error failed _)⟩
    · exact .inr ⟨storage, x, i, v, held, number, whole, found, taken.trans (bind_of_ok ok _)⟩

end Eval

/-! ## 3. Sessions -/

/-- **Built-ins get the arguments they take.**  Whatever has been run in a session, a built-in
function or method has been applied to as many arguments as it declares, whether it was called
directly, bound, through `super`, by a loop, or as the initializer that a class inherits.  So no
task, and no program, ends with the interrupt for a misuse.  In every state, the place that `at` or
`set` goes to in a list is that of an element, or else the method fails and changes nothing; and an
iterator of a list has items just if there is an element where it stands. -/
theorem builtins_get_their_arguments (input : Input) (room : Option Nat) (clock : Nat)
    (commands : List Command) :
    let course := (Course.new input room clock).follow commands
    (∀ fuel function arguments line s,
      course.past.moments (.begins fuel (.apply (.builtin function) arguments line) s) →
      arguments.length = function.arity) ∧
    (∀ fuel self method arguments line s,
      course.past.moments (.begins fuel (.applyMethod ⟨self, .builtin method⟩ arguments line) s) →
      arguments.length = method.arity) ∧
    (∀ fuel task s s', course.past.moments (.begins fuel task s) →
      task.run fuel s ≠ .error .misuse s') ∧
    (∀ fuel source program resolution s',
      course.session.accepted? source = some (program, resolution) →
      Eval.run fuel program (course.session.ready resolution) ≠ .error .misuse s') ∧
    (∀ self place line s,
      (∃ cause, Eval.callMethod .listAt self [place] line s =
        .error (.error ⟨.builtin cause, line⟩) s) ∨
      ∃ storage x i v, s.heap.payload? self = some (.list storage) ∧ place = .number x ∧
        (Decimal.Binary.ofFloat x).toNat? = some i ∧ s.heap.item? storage i = some v ∧
        Eval.callMethod .listAt self [place] line s = .ok v s) ∧
    (∀ self place value line s,
      (∃ cause, Eval.callMethod .listSet self [place, value] line s =
        .error (.error ⟨.builtin cause, line⟩) s) ∨
      ∃ storage x i v, s.heap.payload? self = some (.list storage) ∧ place = .number x ∧
        (Decimal.Binary.ofFloat x).toNat? = some i ∧ s.heap.item? storage i = some v ∧
        Eval.callMethod .listSet self [place, value] line s =
          .ok value { s with heap := s.heap.setItem storage i value }) ∧
    ∀ (heap : Heap) storage position,
      heap.hasItems (.list storage position) = (heap.item? storage position).isSome := by
  intro course
  have fits : ∀ m, course.past.moments m → m.Fits := by
    intro m happened
    obtain ⟨_, _, _, _, _, _, -, -, during⟩ := Course.during happened
    exact during.fits
  refine ⟨fun fuel function arguments line s begun => (fits _ begun).symm,
    fun fuel self method arguments line s begun => (fits _ begun).symm,
    fun fuel task s s' begun => Task.not_misuse (fits _ begun) fuel s s',
    fun fuel source program resolution s' _ => Eval.run_not_misuse fuel program _ s',
    fun self place line s => ?_, fun self place value line s => ?_, Heap.hasItems_list⟩
  · rcases Eval.place_cases self line place (Eval.itemAt line) s with
      failed | ⟨storage, x, i, v, held, number, whole, found, given⟩
    · exact .inl failed
    · refine .inr ⟨storage, x, i, v, held, number, whole, found, given.trans ?_⟩
      rw [Eval.itemAt, Eval.look_bind, found]
      rfl
  · rcases Eval.place_cases self line place (fun storage i => do
      Eval.modifyHeap (·.setItem storage i value)
      return value) s with
      failed | ⟨storage, x, i, v, held, number, whole, found, given⟩
    · exact .inl failed
    · exact .inr ⟨storage, x, i, v, held, number, whole, found, given⟩

namespace Inherited

/-- A class inherits the initializer of lists, and a built-in function is called for an argument of
a built-in method. -/
def text : String := "class L < List \x7b\x7d L().append(str(\"a\"));"

/-- What the text says. -/
def program : List Stmt :=
  [.classDecl ⟨"L", 1⟩ (some ⟨0, ⟨"List", 1⟩⟩) [],
    .expression (.call (.get (.call (.variable ⟨1, ⟨"L", 1⟩⟩) [] 1) ⟨"append", 1⟩)
      [.call (.variable ⟨2, ⟨"str", 1⟩⟩) [.literal (.string "a")] 1] 1)]

/-- A new session. -/
abbrev course : Course := .new ⟨[], true⟩ none 0

theorem program_read : (course.session.accepted? text).map Prod.fst = some program := by
  cbv

/-- Whether a built-in function is applied. -/
def isFunction : Moment → Bool
  | .begins _ (.apply (.builtin .str) _ _) _ => true
  | _ => false

/-- Whether the initializer of lists is applied. -/
def isInitializer : Moment → Bool
  | .begins _ (.applyMethod ⟨_, .builtin .listInit⟩ _ _) _ => true
  | _ => false

end Inherited

/-- The built-in function has one argument, and the initializer that the class inherits none. -/
theorem initializer_is_inherited :
    (∃ fuel arguments line s, (Inherited.course.step (.run 40 Inherited.text)).past.moments
        (.begins fuel (.apply (.builtin .str) arguments line) s) ∧ arguments.length = 1) ∧
    (∃ fuel self arguments line s,
      (Inherited.course.step (.run 40 Inherited.text)).past.moments
        (.begins fuel (.applyMethod ⟨self, .builtin .listInit⟩ arguments line) s) ∧
      arguments.length = 0 ∧
      ∀ s', (Task.applyMethod ⟨self, .builtin .listInit⟩ arguments line).run fuel s ≠
        .error .misuse s') ∧
    ∃ resolution, Inherited.course.session.accepted? Inherited.text =
        some (Inherited.program, resolution) ∧
      ∀ s', Eval.run 40 Inherited.program (Inherited.course.session.ready resolution) ≠
        .error .misuse s' := by
  obtain ⟨functions, methods, tasks, -⟩ :=
    builtins_get_their_arguments ⟨[], true⟩ none 0 [.run 40 Inherited.text]
  have moment := Inherited.course.moment_of_trace 40 Inherited.text Inherited.program
    Inherited.program_read
  refine ⟨?_, ?_, ?_⟩
  · obtain ⟨m, hm, hp⟩ := moment Inherited.isFunction (by decide +kernel)
    unfold Inherited.isFunction at hp
    split at hp
    · exact ⟨_, _, _, _, hm, functions _ _ _ _ _ hm⟩
    · cases hp
  · obtain ⟨m, hm, hp⟩ := moment Inherited.isInitializer (by decide +kernel)
    unfold Inherited.isInitializer at hp
    split at hp
    · exact ⟨_, _, _, _, _, hm, methods _ _ _ _ _ _ hm, fun s' => tasks _ _ _ s' hm⟩
    · cases hp
  · obtain ⟨⟨program, resolution⟩, accepted, same⟩ :=
      Option.map_eq_some_iff.1 Inherited.program_read
    obtain rfl : program = Inherited.program := same
    exact ⟨resolution, accepted, fun s' =>
      (builtins_get_their_arguments ⟨[], true⟩ none 0 []).2.2.2.1 40 _ _ _ s' accepted⟩

end Lox
