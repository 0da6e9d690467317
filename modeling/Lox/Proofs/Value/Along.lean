/-
# Iterators along a collection

An iterator goes along a collection (`Heap.Along`): it has passed some of the elements, and what it
has before it are all the others.  The iterator of a list knows how many it has passed; that of a
linked list knows the rest of the chain, and as long as this is not empty it ends in the same node
as the linked list does.

What is put at the end of the collection therefore comes before the iterator, too
(`Heap.Along.undergoes`), unless the iterator of a linked list has nothing before it any more.
-/
import Lox.Proofs.Value.Interference

namespace Lox

/-- The method of a collection that makes an iterator. -/
def BuiltinClass.iterate : BuiltinClass → BuiltinMethod
  | linkedList => .linkedIterate
  | _ => .listIterate

/-! ## 1. Operations that only append -/

namespace Operation

/-- An operation lets an iterator go along a collection: on the collection it appends or looks, and
it does not step the iterator. -/
structure Lets (operation : Operation) (it col : InstanceId) : Prop where
  collection : operation.self = col →
    operation.method ∉ [BuiltinMethod.listInit, .listSet, .linkedInit, .linkedPrepend]
  iterator : operation.self = it → operation.method ≠ .move

/-- What an operation puts at the end of the collection that it is on. -/
def appended (operation : Operation) : List Value :=
  match operation.method, operation.arguments with
  | .listAppend, [value] | .linkedAppend, [value] => [value]
  | _, _ => []

/-- What operations put at the end of a collection. -/
def appendedTo (col : InstanceId) (operations : List Operation) : List Value :=
  (operations.filter (·.self = col)).flatMap appended

theorem onSequence_of_lets {operation : Operation}
    (lets : operation.method ∉ [BuiltinMethod.listInit, .listSet, .linkedInit, .linkedPrepend])
    (next : InstanceId) (items : List Value) :
    (operation.onSequence next items).2 = items ++ operation.appended := by
  obtain ⟨method, self, arguments, line⟩ := operation
  cases method with
  | listInit | listSet | linkedInit | linkedPrepend => exact absurd (by simp) lets
  | listAppend | linkedAppend =>
    obtain _ | ⟨value, _ | _⟩ := arguments <;> simp [onSequence, appended]
  | _ =>
    obtain _ | ⟨_, _ | _⟩ := arguments <;> simp [onSequence, appended]

theorem sequenceAfter_of_lets {operations : List Operation} {it col : InstanceId}
    (lets : ∀ operation ∈ operations, operation.Lets it col) (items : List Value) :
    sequenceAfter (operations.filter (·.self = col)) items =
      items ++ appendedTo col operations := by
  induction operations generalizing items with
  | nil => simp [sequenceAfter, appendedTo]
  | cons operation rest ih =>
    have later := fun items => ih (fun o mem => lets o (List.mem_cons_of_mem _ mem)) items
    by_cases on : operation.self = col
    · have own := onSequence_of_lets ((lets operation List.mem_cons_self).collection on) 0 items
      unfold sequenceAfter appendedTo at later ⊢
      simp [on, own, later]
    · simpa [appendedTo, on] using later items

end Operation

namespace Heap

variable {heap heap' : Heap} {it col : InstanceId} {passed : Nat} {kind : BuiltinClass}

/-! ## 2. Where an iterator stands -/

/-- An iterator goes along a collection of a kind and has passed some elements of it. -/
inductive Along (heap : Heap) (it col : InstanceId) (passed : Nat) : BuiltinClass → Prop where
  | list {storage : StorageId}
      (stands : heap.payload? it = some (.iterator (.list storage passed)))
      (held : heap.payload? col = some (.list storage)) : Along heap it col passed .list
  | linkedList {rest chain : Chain} {ends : Nat → NodeId} {labels : Nat}
      {strand : InstanceId → Strand Value}
      (stands : heap.payload? it = some (.iterator (.linkedList rest)))
      (held : heap.payload? col = some (.linkedList chain)) (spins : heap.Spins ends labels strand)
      (items : (strand it).items = (strand col).items.drop passed)
      (label : (strand it).items ≠ [] → (strand it).label = (strand col).label) :
      Along heap it col passed .linkedList

namespace Along

theorem collects (h : heap.Along it col passed kind) : heap.Collects col kind := by
  cases h with
  | list stands held => exact .list held
  | linkedList stands held => exact .linkedList held

theorem ne (h : heap.Along it col passed kind) : it ≠ col := by
  rintro rfl
  cases h with
  | list stands held | linkedList stands held => cases held.symm.trans stands

/-- The iterator has items exactly if it has not passed all, and stands at the first that it has not
passed. -/
theorem stands (h : heap.Along it col passed kind) :
    ∃ iterator, heap.iterator? it = some iterator ∧
      heap.hasItems iterator = decide (passed < (heap.contents col).length) ∧
      heap.current? iterator = (heap.contents col)[passed]? := by
  suffices ∃ iterator, heap.iterator? it = some iterator ∧
      heap.hasItems iterator = decide (passed < (heap.contents col).length) ∧
      (heap.hasItems iterator = true →
        heap.current? iterator = (heap.contents col)[passed]?) by
    obtain ⟨iterator, found, has, current⟩ := this
    refine ⟨iterator, found, has, ?_⟩
    cases items : heap.hasItems iterator with
    | true => exact current items
    | false =>
      -- behind the last element there is none, be it for the iterator or in the collection
      have none_left : ¬ passed < (heap.contents col).length := by simpa [items] using has
      rw [List.getElem?_eq_none (Nat.le_of_not_lt none_left), Heap.current?.eq_def, items]
      rfl
  cases h with
  | @list storage stands held =>
    have items := contents_of_list held
    refine ⟨_, iterator?_eq_some.2 stands, ?_, fun has => ?_⟩
    · rw [Heap.hasItems, storageSize_eq, items]
    · rw [Heap.current?.eq_def, has, items, ← item?_eq]
      rfl
  | @linkedList rest chain ends labels strand stands held spins rest_items label =>
    have shows := spins.shows it rest (chain?_of_iterator stands)
    have items := spins.contents_eq held
    refine ⟨_, iterator?_eq_some.2 stands, ?_, fun has => ?_⟩
    · rw [Heap.hasItems, shows.isEmpty_eq, rest_items, items, Bool.eq_iff_iff]
      simp
    · rw [Heap.current?.eq_def, has, items, ← List.head?_drop, ← rest_items, ← shows.first?_eq]
      rfl

/-- A step passes one more element. -/
theorem advance (h : heap.Along it col passed kind) (lt : passed < (heap.contents col).length)
    {iterator : Iterator} (found : heap.iterator? it = some iterator) :
    (heap.setPayload it (.iterator (heap.advance iterator))).Along it col (passed + 1) kind := by
  obtain ⟨iterator', found', has, -⟩ := h.stands
  obtain rfl := Option.some.inj (found.symm.trans found')
  rw [decide_eq_true lt] at has
  have ne := h.ne
  have other : (heap.setPayload it (.iterator (heap.advance iterator))).payload? col =
      heap.payload? col := payload?_setPayload_of_ne ne _
  cases h with
  | @list storage stands held =>
    cases found.symm.trans (iterator?_eq_some.2 stands)
    refine .list ?_ (other.trans held)
    rw [payload?_setPayload_held stands, Heap.advance.eq_def, has]
    rfl
  | @linkedList rest chain ends labels strand stands held spins items label =>
    cases found.symm.trans (iterator?_eq_some.2 stands)
    have now : (heap.setPayload it (.iterator (heap.advance (.linkedList rest)))).payload? it =
        some (.iterator (.linkedList (heap.nodes.tail rest))) := by
      rw [payload?_setPayload_held stands, Heap.advance.eq_def, has]
      rfl
    refine .linkedList now (other.trans held) (spins.advance stands) ?_ ?_
    · rw [Function.update_self, Function.update_of_ne ne.symm, items, List.tail_drop]
    · rw [Function.update_self, Function.update_of_ne ne.symm]
      intro nonempty
      exact label fun empty => nonempty (by rw [empty]; rfl)

/-! ## 3. What an iterator sees of operations -/

/-- A new iterator has passed nothing. -/
theorem start (apart : heap.Apart) (collects : heap.Collects col kind) (line : Nat) :
    (Operation.effect ⟨kind.iterate, col, [], line⟩ heap).1 = .ok (.inst heap.instances.size) ∧
      (Operation.effect ⟨kind.iterate, col, [], line⟩ heap).2.Along heap.instances.size col 0 kind ∧
      ((Operation.effect ⟨kind.iterate, col, [], line⟩ heap).2.class? heap.instances.size).any
        Class.isBuiltin = true ∧
      (Operation.effect ⟨kind.iterate, col, [], line⟩ heap).2.contents col = heap.contents col := by
  have added : ∀ {payload : Payload} (cls : Class) (iterator : Iterator),
      heap.payload? col = some payload →
      (heap.add cls (some (.iterator iterator))).2.payload? heap.instances.size =
          some (.iterator iterator) ∧
        (heap.add cls (some (.iterator iterator))).2.payload? col = some payload ∧
        (heap.add cls (some (.iterator iterator))).2.class? heap.instances.size = some cls := by
    intro payload cls iterator held
    exact ⟨by rw [payload?_add, if_pos rfl],
      by rw [payload?_add, if_neg (Nat.ne_of_lt (lt_size_of_payload? held)), held],
      by rw [class?_add, if_pos rfl]⟩
  cases collects with
  | list held =>
    obtain ⟨stands, held', cls⟩ := added (.builtin .listIterator) (.list _ 0) held
    simp only [Operation.effect, BuiltinClass.iterate, withStorage, held]
    exact ⟨trivial, .list stands held', by rw [cls]; rfl, contents_add held _ _⟩
  | linkedList held =>
    have old := Nat.ne_of_lt (lt_size_of_payload? held)
    obtain ⟨ends, labels, strand, spins⟩ := apart.spins
    obtain ⟨stands, held', cls⟩ := added (.builtin .linkedListIterator) (.linkedList _) held
    simp only [Operation.effect, BuiltinClass.iterate, withChain, held]
    refine ⟨trivial, .linkedList stands held' (spins.iterate held _) ?_ ?_, by rw [cls]; rfl,
      contents_add held _ _⟩
    · rw [Function.update_self, Function.update_of_ne old, List.drop_zero]
    · rw [Function.update_self, Function.update_of_ne old]
      exact fun _ => rfl

theorem of_aside (h : heap.Along it col passed kind) (aside : heap.Aside heap') :
    heap'.Along it col passed kind := by
  cases h with
  | list stands held =>
    exact .list (payload?_of_aside aside stands) (payload?_of_aside aside held)
  | linkedList stands held spins items label =>
    obtain ⟨strand', spins', kept⟩ := spins.aside aside
    refine .linkedList (payload?_of_aside aside stands) (payload?_of_aside aside held) spins' ?_ ?_
    · rw [kept it _ stands, kept col _ held, items]
    · rw [kept it _ stands, kept col _ held]
      exact label

variable {operation : Operation}

/-- An operation on anything else. -/
theorem of_other (h : heap.Along it col passed kind) (lt : passed < (heap.contents col).length)
    (changes : operation.Changes heap heap') (off : it ≠ operation.self)
    (off' : col ≠ operation.self) : heap'.Along it col passed kind := by
  cases h with
  | list stands held =>
    exact .list (payload?_of_changes changes off stands) (payload?_of_changes changes off' held)
  | @linkedList rest chain ends labels strand stands held spins items label =>
    obtain ⟨ends', labels', strand', spins', kept⟩ := spins.changes changes
    rw [spins.contents_eq held] at lt
    have nonempty : (strand col).items ≠ [] := List.ne_nil_of_length_pos (Nat.zero_lt_of_lt lt)
    have before : (strand it).items ≠ [] := by
      rw [items]
      exact List.drop_eq_nil_iff.not.2 (Nat.not_le.2 lt)
    -- another linked list that gets an element has another label
    have same : ∀ id, id = it ∨ id = col → strand' id = strand id := by
      rintro id on
      have there : (∃ payload, heap.payload? id = some payload) ∧ id ≠ operation.self ∧
          (strand id).label = (strand col).label := by
        rcases on with rfl | rfl
        · exact ⟨⟨_, stands⟩, off, label before⟩
        · exact ⟨⟨_, held⟩, off', rfl⟩
      obtain ⟨⟨payload, found⟩, ne, labelled⟩ := there
      rcases kept id payload found ne with same | ⟨_, _, held', items', extended⟩
      · exact same
      · rw [extended, Strand.extend, if_neg]
        rintro ⟨-, label'⟩
        exact off' (spins.own col operation.self _ _ held held' nonempty items'
          (labelled.symm.trans label'))
    refine .linkedList (payload?_of_changes changes off stands)
      (payload?_of_changes changes off' held) spins' ?_ ?_
    · rw [same it (.inl rfl), same col (.inr rfl), items]
    · rw [same it (.inl rfl), same col (.inr rfl)]
      exact label

/-- An operation on the collection, which may put an element at its end. -/
theorem of_collection (h : heap.Along it col passed kind)
    (lt : passed < (heap.contents col).length) (changes : operation.Changes heap heap')
    (on : operation.self = col) (mem : operation.method ∈ kind.methods)
    (lets : operation.Lets it col) : heap'.Along it col passed kind := by
  have keeps := lets.collection on
  have ne := h.ne
  have old : ∀ {id : InstanceId} {payload : Payload}, heap.payload? id = some payload →
      id ≠ heap.instances.size := fun there => Nat.ne_of_lt (lt_size_of_payload? there)
  have known : ∀ {id : InstanceId} {payload : Payload} (cls : Class) (other : Option Payload),
      heap.payload? id = some payload → (heap.add cls other).2.payload? id = some payload := by
    intro id payload cls other there
    rw [payload?_add, if_neg (old there), there]
  cases h with
  | list stands held =>
    cases changes with
    | same | pushItem => exact .list stands held
    | iterateList => exact .list (known _ _ stands) (known _ _ held)
    | initList | setItem => exact absurd keeps (by simp)
    | _ => exact absurd mem (by simp [BuiltinClass.methods])
  | @linkedList rest chain ends labels strand stands held spins items label =>
    rw [spins.contents_eq held] at lt
    have nonempty : (strand col).items ≠ [] := List.ne_nil_of_length_pos (Nat.zero_lt_of_lt lt)
    have before : (strand it).items ≠ [] := by
      rw [items]
      exact List.drop_eq_nil_iff.not.2 (Nat.not_le.2 lt)
    cases changes with
    | same => exact .linkedList stands held spins items label
    | pushBack held' value =>
      dsimp only at on
      subst on
      cases held.symm.trans held'
      have after := payload?_setChain held (heap.nodes.pushBack chain value)
      refine .linkedList ((after it).trans ((if_neg ne).trans stands))
        ((after _).trans (if_pos rfl)) (spins.pushBack held nonempty value) ?_ ?_
      · rw [Function.update_of_ne ne, Function.update_self, Strand.extend,
          if_pos ⟨before, label before⟩, items, List.drop_append_of_le_length (Nat.le_of_lt lt)]
      · rw [Function.update_of_ne ne, Function.update_self, Strand.extend,
          if_pos ⟨before, label before⟩]
        exact fun _ => label before
    | iterateLinked held' =>
      dsimp only at on
      subst on
      refine .linkedList (known _ _ stands) (known _ _ held) (spins.iterate held' _) ?_ ?_
      · rw [Function.update_of_ne (old stands), Function.update_of_ne (old held), items]
      · rw [Function.update_of_ne (old stands), Function.update_of_ne (old held)]
        exact label
    | initLinked | push => exact absurd keeps (by simp)
    | _ => exact absurd mem (by simp [BuiltinClass.methods])

/-- An operation on the iterator itself, which only looks. -/
theorem of_iterator (h : heap.Along it col passed kind) (changes : operation.Changes heap heap')
    (on : operation.self = it) (suits : operation.Suits heap) (lets : operation.Lets it col) :
    heap' = heap := by
  have stays := lets.iterator on
  have steps : operation.Steps := by
    cases h with
    | list stands => exact suits _ (on ▸ stands)
    | linkedList stands => exact suits _ (on ▸ stands)
  cases changes with
  | same => rfl
  | advance => exact absurd rfl stays
  | _ => exact absurd steps (by simp [Operation.Steps, BuiltinClass.methods])

/-- **An operation that lets an iterator go along** leaves it where it is; what the operation puts
at the end of the collection comes before the iterator. -/
theorem effect (h : heap.Along it col passed kind) (lt : passed < (heap.contents col).length)
    (suits : operation.Suits heap) (lets : operation.Lets it col) :
    (operation.effect heap).2.Along it col passed kind := by
  have changes := (operation.does_effect heap).changes
  by_cases on : operation.self = it
  · rwa [h.of_iterator changes on suits lets]
  by_cases on' : operation.self = col
  · exact h.of_collection lt changes on' (h.collects.mem_of_suits suits on') lets
  · exact h.of_other lt changes (Ne.symm on) (Ne.symm on')

end Along

/-! ## 4. Runs that let an iterator go along -/

section Run

variable {p : Operation → Heap → Prop} {operations : List Operation}

theorem Undergoes.of_mem (run : heap.Undergoes p operations heap') {operation : Operation}
    (mem : operation ∈ operations) : ∃ heap, p operation heap := by
  induction run with
  | done => cases mem
  | aside aside rest ih => exact ih mem
  | operation fits rest ih =>
    rcases List.mem_cons.1 mem with rfl | later
    · exact ⟨_, fits⟩
    · exact ih later

variable (fits : ∀ operation heap, p operation heap →
  operation.Suits heap ∧ operation.Lets it col)

include fits

/-- What is put at the end of the collection is all that changes in it. -/
theorem Undergoes.appended (run : heap.Undergoes p operations heap') (apart : heap.Apart)
    (collects : heap.Collects col kind) :
    heap'.contents col = heap.contents col ++ Operation.appendedTo col operations ∧
      heap'.Apart := by
  obtain ⟨contents, apart', -⟩ := run.contents
    (fun operation heap fit collects on => collects.mem_of_suits (fits _ _ fit).1 on) apart collects
  have lets : ∀ operation ∈ operations, operation.Lets it col := by
    intro operation mem
    obtain ⟨heap, fit⟩ := run.of_mem mem
    exact (fits _ _ fit).2
  exact ⟨contents.trans (Operation.sequenceAfter_of_lets lets _), apart'⟩

/-- **An iterator stays where it is in a run** that lets it go along. -/
theorem Along.undergoes (run : heap.Undergoes p operations heap')
    (apart : heap.Apart) (h : heap.Along it col passed kind)
    (lt : passed < (heap.contents col).length) : heap'.Along it col passed kind := by
  induction run with
  | done => exact h
  | aside aside rest ih =>
    exact ih (apart.change aside.change) (h.of_aside aside)
      (apart.contents_of_aside aside h.collects ▸ lt)
  | operation fit rest ih =>
    obtain ⟨suits, lets⟩ := fits _ _ fit
    obtain ⟨contents, apart'⟩ := Undergoes.appended fits (.operation fit (.done _)) apart h.collects
    refine ih apart' (h.effect lt suits lets) (Nat.lt_of_lt_of_le lt ?_)
    rw [contents, List.length_append]
    exact Nat.le_add_right _ _

end Run

end Heap

end Lox
