/-
# Iterators and collections do not interfere

A collection and all iterators of it are operated on in any order, by way of any variables.  The
collection behaves as a plain sequence to which only the operations on itself were applied, and
every iterator as if no other one had been there (`iterators_do_not_interfere`).

The collection is any one in any state of a session; a program can bring it and its iterators there
in any way.  Whatever a program itself does from there on, the elements of the collection are what
the operations on it leave of a sequence.
-/
import Lox.Proofs.Session.Operations
import Lox.Proofs.Value.Interference

namespace Lox

open Operation

section Session

variable {input : Input} {room : Option Nat} {clock : Nat} {commands : List Command}

/-- **Iterators and collections do not interfere.**  In some state of a session, operations are
carried out on a collection, and on iterators in between, in any order.

* The operations on the collection answer as on a plain sequence, and in the end the collection is
  written with the elements that these operations leave of the sequence.
* If the operations on some of the iterators are left out, all others answer the same, and the heap
  in the end is the same but for where these iterators stand.  So every text is the same, too.
* An operation that fails changes nothing, and no more does a step of an iterator without items.
* Every task that begins in the state leaves in the collection the elements that its operations on
  the collection leave of the sequence. -/
theorem iterators_do_not_interfere {s : State}
    (reached : ((Course.new input room clock).follow commands).Reached s) {id : InstanceId}
    {kind : BuiltinClass} (collects : s.heap.Collects id kind) {operations : List Operation}
    (concern : ∀ operation ∈ operations, operation.Concerns id kind) :
    ((carryOut operations s).answers.filter (·.1.self = id) =
        answersOnSequence (operations.filter (·.self = id)) s.heap.instances.size
          (s.heap.contents id) ∧
      (carryOut operations s).state.heap.listing? id =
        some (kind.listing (sequenceAfter (operations.filter (·.self = id))
          (s.heap.contents id)))) ∧
    (∀ kept : InstanceId → Bool, kept id = true →
      (carryOut operations s).answers.filter (kept ·.1.self) =
          (carryOut (operations.filter (kept ·.self)) s).answers ∧
        (carryOut operations s).state.heap.Agree (kept · = false)
          (carryOut (operations.filter (kept ·.self)) s).state.heap ∧
        ∀ value, (carryOut operations s).state.heap.text value =
          (carryOut (operations.filter (kept ·.self)) s).state.heap.text value) ∧
    ((∀ (operation : Operation) (t t' : State) (interrupt : Interrupt),
        operation.run t = .error interrupt t' → t' = t) ∧
      ∀ (t : State) (other : InstanceId) (iterator : Iterator) (line : Nat),
        t.heap.iterator? other = some iterator → t.heap.hasItems iterator = false →
          run ⟨.move, other, [], line⟩ t = .ok .nil t) ∧
    ∀ (fuel : Nat) (task : Task),
      (Past.after input room clock commands).moments (.begins fuel task s) →
        (endState (task.run fuel s)).heap.contents id =
          sequenceAfter ((task.operations fuel s).filter (·.self = id)) (s.heap.contents id) := by
  have apart := Course.apart reached
  refine ⟨⟨apart.answers_carryOut concern collects, ?_⟩, ?_, ⟨?_, ?_⟩, ?_⟩
  · have run := Heap.Undergoes.carryOut (p := fun operation _ => operation.Concerns id kind)
      (fun operation mem _ => concern operation mem) s
    obtain ⟨contents, -, still⟩ := run.contents
      (fun _ _ concern _ on => (concern.resolve_right fun off => off.1 on).2) apart collects
    rw [still.listing?_eq, contents]
  · intro kept own
    have steps : ∀ operation ∈ operations, kept operation.self = false → operation.Steps := by
      intro operation mem off
      rcases concern operation mem with ⟨rfl, -⟩ | ⟨-, steps⟩
      · rw [own] at off
        cases off
      · exact steps
    obtain ⟨answers, agree⟩ := Heap.Agree.carryOut steps (.refl s.heap)
    exact ⟨answers, agree, agree.text_eq⟩
  · exact fun _ _ _ _ failed => run_error failed
  · exact fun t other iterator line held exhausted => run_move_of_exhausted held exhausted line
  · exact fun fuel task begun => (Course.contents begun collects).1

end Session

/-- A list is found in a heap by looking at what the instance holds. -/
theorem Heap.Collects.of_isList {heap : Heap} {id : InstanceId}
    (h : (match heap.payload? id with | some (.list _) => true | _ => false) = true) :
    heap.Collects id .list := by
  split at h
  · exact .list ‹_›
  · cases h

/-- A list is added to while one of its two iterators is stepped past the end.  That cannot be seen
in what the other iterator answers, nor in the list. -/
theorem list_iterators_do_not_interfere :
    ∃ s, ((Course.new ⟨[], true⟩ none 0).follow
        [.run 20 "var l = [\"a\"]; var i = l.iterate(); var j = l.iterate();"]).Reached s ∧
      let append : Operation := ⟨.listAppend, 0, [.string "b"], 1⟩
      let operations : List Operation :=
        [⟨.move, 1, [], 1⟩, append, ⟨.move, 1, [], 1⟩, ⟨.get, 2, [], 1⟩, ⟨.get, 1, [], 1⟩]
      s.heap.Collects 0 .list ∧ (∀ operation ∈ operations, operation.Concerns 0 .list) ∧
      (carryOut operations s).answers.filter (·.1.self ≠ 1) =
        (carryOut [append, ⟨.get, 2, [], 1⟩] s).answers ∧
      (carryOut operations s).state.heap.text (.inst 0) = "[a, b]" := by
  have collects : Heap.Collects ((Course.new ⟨[], true⟩ none 0).follow
      [.run 20 "var l = [\"a\"]; var i = l.iterate(); var j = l.iterate();"]).session.state.heap 0
      .list := .of_isList (by decide +kernel)
  have concern : ∀ operation ∈ ([⟨.move, 1, [], 1⟩, ⟨.listAppend, 0, [.string "b"], 1⟩,
      ⟨.move, 1, [], 1⟩, ⟨.get, 2, [], 1⟩, ⟨.get, 1, [], 1⟩] : List Operation),
      operation.Concerns 0 .list := by
    simp [Concerns, Steps, BuiltinClass.methods]
  obtain ⟨answers, -, texts⟩ := (iterators_do_not_interfere .last collects concern).2.1 (· ≠ 1) rfl
  exact ⟨_, .last, collects, concern, answers, (texts _).trans (by decide +kernel)⟩

end Lox
