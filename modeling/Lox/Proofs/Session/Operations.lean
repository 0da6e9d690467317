/-
# The operations of a session

In a session a method of a built-in class is only ever carried out on an instance that holds what
the method is for, or nothing yet (`Course.suits`), and no two collections have anything in common
(`Course.apart`).  So the elements of a collection behind a task are those that the operations on
it, one after the other, leave of a plain sequence (`Course.contents`), whatever else the task does.
-/
import Lox.Proofs.Session.Rendering
import Lox.Proofs.Value.Sequence

namespace Lox

/-- An iterator has all methods by which a loop goes along. -/
theorem Iterator.mem_methods (iterator : Iterator) {method : BuiltinMethod}
    (mem : method ∈ BuiltinClass.listIterator.methods) : method ∈ iterator.kind.methods := by
  cases iterator with
  | range => exact List.mem_cons_of_mem _ (List.mem_cons_of_mem _ mem)
  | _ => exact mem

/-- The operation that a task carries out suits the instance, if what the task is given is
formed. -/
theorem Task.Given.suits_operation {past : Past} {s : State} (formed : s.Formed past) {task : Task}
    (given : task.Given s.store) {operation : Operation}
    (found : task.operation? = some operation) : operation.Suits s.heap := by
  have direct : ∀ {id : InstanceId} {payload : Payload} {method : BuiltinMethod},
      (s.heap.iterator? id).isSome → s.heap.payload? id = some payload →
      method ∈ BuiltinClass.listIterator.methods → method ∈ payload.kind.methods := by
    intro id payload method holds held mem
    obtain ⟨iterator, there⟩ := Option.isSome_iff_exists.1 holds
    cases (Heap.iterator?_eq_some.1 there).symm.trans held
    exact iterator.mem_methods mem
  obtain ⟨method, self, arguments, line⟩ := operation
  intro payload held
  rcases cases_of_operation? found with rfl | ⟨rfl, rfl, rfl⟩ | ⟨rfl, rfl, rfl⟩ | ⟨rfl, rfl, rfl⟩
  · obtain ⟨cls, kind, hcls, root, mem⟩ := given.1.suits
    obtain ⟨cls', hcls', root'⟩ := formed.heap.payloads self payload held
    obtain rfl := Option.some.inj (hcls.symm.trans hcls')
    obtain rfl := Option.some.inj (root.symm.trans root')
    exact mem
  · exact direct given held (by simp [BuiltinClass.methods])
  · exact direct given held (by simp [BuiltinClass.methods])
  · exact direct given held (by simp [BuiltinClass.methods])

section Session

variable {input : Input} {room : Option Nat} {clock : Nat} {commands : List Command}

/-- Collections are apart in every state of a session. -/
theorem Course.apart {s : State}
    (reached : ((Course.new input room clock).follow commands).Reached s) : s.heap.Apart :=
  Course.heap_of_reached (p := Heap.Apart) (fun _ _ h changed => h.change changed) Heap.apart_empty
    reached

variable {fuel : Nat} {task : Task} {s : State}
  (begun : (Past.after input room clock commands).moments (.begins fuel task s))

include begun

/-- **The operations of a session suit the instances that they are on.** -/
theorem Course.suits : Moment.Fit Operation.Suits (task.trace fuel s) := by
  intro m mem operation found
  have reaches := Task.mem_trace.1 mem
  have happened : (Past.after input room clock commands).moments m := by
    clear mem found
    induction reaches with
    | refl => exact begun
    | tail _ next ih => exact (Course.scoped input room clock commands).closed _ _ ih next
  cases m with
  | opens origin t => cases found
  | begins fuel task t =>
    cases fuel with
    | zero => cases found
    | succ fuel =>
      obtain ⟨⟨formed, given⟩, -⟩ := (Course.formed input room clock commands).lasts _ _ _ happened
      exact given.suits_operation formed found

/-- **The elements of a collection behind a task** are those that the operations on it leave of a
plain sequence. -/
theorem Course.contents {id : InstanceId} {kind : BuiltinClass}
    (collects : s.heap.Collects id kind) :
    (endState (task.run fuel s)).heap.contents id =
        Operation.sequenceAfter ((task.operations fuel s).filter (·.self = id))
          (s.heap.contents id) ∧
      (endState (task.run fuel s)).heap.Apart ∧
      (endState (task.run fuel s)).heap.Collects id kind :=
  (task.undergoes fuel s (Course.suits begun)).contents
    (fun _ _ suits collects on => collects.mem_of_suits suits on) (Course.apart (.begins begun))
    collects

end Session

end Lox
