/-
# Chains are lists with a shared end

A `Strand` is what can be seen of a chain: its elements, and a label that it has in common with the
chains that run into the same last node.  `Strands` are the operations of a pool said of strands
alone, without nodes and without a remembered end: an element put at the end of a strand comes to
all strands with its label, and to no others.

`Refines` ties a pool to its strands.  Every operation keeps it (`Refines.step`), so in every pool
that can be made links have no cycles, each chain finds its last node from wherever its memory
points, and what it shows are the elements of its strand (`pools_refine_strands`).
-/
import Lox.Chain.Pool
import Lox.Proofs.Chain.Walk

namespace Lox

open Nodes

/-! ## 1. Operations on chains

A pool of chains over shared nodes, each chain with a number. -/

/-- What can be asked of a pool of chains; chains go by their numbers. -/
inductive ChainOp (α : Type) where
  | new
  | push (number : Nat) (element : α)
  | pushBack (number : Nat) (element : α)
  | copy (number : Nat)
  | tail (number : Nat)
  | drop (number : Nat)

variable {α : Type}

namespace ChainPool

/-- Carries out an operation; one on a chain that is not there changes nothing. -/
def step (pool : ChainPool α) : ChainOp α → ChainPool α
  | .new => pool.new.2
  | .push number element => (pool.push? number element).getD pool
  | .pushBack number element => (pool.pushBack? number element).getD pool
  | .copy number => ((pool.copy? number).map Prod.snd).getD pool
  | .tail number => ((pool.tail? number).map Prod.snd).getD pool
  | .drop number => (pool.drop? number).getD pool

/-- The pool after some operations. -/
def after (ops : List (ChainOp α)) : ChainPool α := ops.foldl step empty

end ChainPool

/-! ## 2. Strands

The same operations without nodes, so that nothing can be stale. -/

/-- The elements of a chain.  Strands that are not empty have the same label if an element at the
end of one of them is at the end of the other. -/
structure Strand (α : Type) where
  items : List α
  label : Nat

/-- The strand once an element has been put at the end of the strands with a label. -/
def Strand.extend (label : Nat) (element : α) (strand : Strand α) : Strand α :=
  if strand.items ≠ [] ∧ strand.label = label then
    { strand with items := strand.items ++ [element] }
  else strand

/-- Numbered strands, and the next label. -/
structure Strands (α : Type) where
  all : Array (Option (Strand α))
  nextLabel : Nat

namespace Strands

/-- No strands. -/
def empty : Strands α := ⟨#[], 0⟩

/-- The strand with a number. -/
def strand? (strands : Strands α) (number : Nat) : Option (Strand α) := strands.all[number]?.join

/-- Takes a strand in under the next number. -/
def add (strands : Strands α) (strand : Strand α) : Strands α :=
  { strands with all := strands.all.push (some strand) }

/-- Puts a strand of one element under a number; no other strand has its label. -/
def restart (strands : Strands α) (number : Nat) (element : α) : Strands α :=
  ⟨strands.all.setIfInBounds number (some ⟨[element], strands.nextLabel⟩), strands.nextLabel + 1⟩

/-- Carries out an operation; one on a strand that is not there changes nothing. -/
def step (strands : Strands α) : ChainOp α → Strands α
  | .new => strands.add ⟨[], strands.nextLabel⟩
  | .push number element =>
    match strands.strand? number with
    | none => strands
    | some ⟨[], _⟩ => strands.restart number element
    | some ⟨items, label⟩ =>
      { strands with all := strands.all.setIfInBounds number (some ⟨element :: items, label⟩) }
  | .pushBack number element =>
    match strands.strand? number with
    | none => strands
    | some ⟨[], _⟩ => strands.restart number element
    | some ⟨_, label⟩ =>
      { strands with all := strands.all.map (Option.map (Strand.extend label element)) }
  | .copy number =>
    match strands.strand? number with
    | none => strands
    | some strand => strands.add strand
  | .tail number =>
    match strands.strand? number with
    | none => strands
    | some strand => strands.add { strand with items := strand.items.tail }
  | .drop number =>
    match strands.strand? number with
    | none => strands
    | some _ => { strands with all := strands.all.setIfInBounds number none }

/-- The strands after some operations. -/
def after (ops : List (ChainOp α)) : Strands α := ops.foldl step empty

end Strands

/-! ## 3. A chain shows a strand

A chain and a strand belong together if the walk from the chain meets the elements of the strand,
and ends where others with its label end. -/

/-- The last nodes of different labels are different, and all of them have been made. -/
structure Labelled (ends : Nat → NodeId) (nextLabel size : Nat) : Prop where
  known : ∀ label < nextLabel, ends label < size
  injective : ∀ a < nextLabel, ∀ b < nextLabel, ends a = ends b → a = b

/-- The next node to be made becomes the last one of a label. -/
theorem Labelled.update {ends : Nat → NodeId} {nextLabel nextLabel' size label : Nat}
    (h : Labelled ends nextLabel size) (others : ∀ a < nextLabel', a ≠ label → a < nextLabel) :
    Labelled (Function.update ends label size) nextLabel' (size + 1) where
  known a ha := by
    by_cases same : a = label
    · subst same
      rw [Function.update_self]
      exact Nat.lt_succ_self _
    · rw [Function.update_of_ne same]
      exact Nat.lt_succ_of_lt (h.known a (others a ha same))
  injective a ha b hb same := by
    by_cases hal : a = label <;> by_cases hbl : b = label
    · exact hal.trans hbl.symm
    · subst hal
      rw [Function.update_self, Function.update_of_ne hbl] at same
      exact absurd same.symm (Nat.ne_of_lt (h.known b (others b hb hbl)))
    · subst hbl
      rw [Function.update_self, Function.update_of_ne hal] at same
      exact absurd same (Nat.ne_of_lt (h.known a (others a ha hal)))
    · rw [Function.update_of_ne hal, Function.update_of_ne hbl] at same
      exact h.injective a (others a ha hal) b (others b hb hbl) same

/-- A chain shows a strand, where a label stands for a last node.  The last node that the chain
remembers may be gone; otherwise the walk from there ends where the walk from the head ends. -/
structure Shows (nodes : Nodes α) (ends : Nat → NodeId) (chain : Chain) (strand : Strand α) :
    Prop where
  walk : ∃ path, nodes.Walk chain.head path ∧ path.map Prod.snd = strand.items ∧
    (path ≠ [] → endOf path = some (ends strand.label))
  known : ∀ last ∈ chain.last, last < nodes.all.size
  memory : ∀ last ∈ chain.last, (nodes.node? last).isSome → strand.items ≠ [] →
    ∃ path, nodes.Walk (some last) path ∧ endOf path = some (ends strand.label)

namespace Shows

variable {nodes nodes' : Nodes α} {ends ends' : Nat → NodeId} {chain : Chain} {strand : Strand α}

/-- What a chain shows is what its strand has. -/
theorem toList_eq (h : Shows nodes ends chain strand) : nodes.toList chain = strand.items := by
  obtain ⟨path, walk, items, -⟩ := h.walk
  rw [toList, path_of_walk walk, items]

/-- A chain is empty just if its strand is. -/
theorem isEmpty_iff (h : Shows nodes ends chain strand) :
    chain.isEmpty = true ↔ strand.items = [] := by
  obtain ⟨path, walk, items, -⟩ := h.walk
  rw [Chain.isEmpty, Option.isNone_iff_eq_none, walk.link_eq_none_iff, ← items, List.map_eq_nil_iff]

/-- **The last node is found from wherever the memory of the chain points.** -/
theorem lastNode?_eq (h : Shows nodes ends chain strand) (nonempty : strand.items ≠ []) :
    nodes.lastNode? chain = some (ends strand.label) := by
  obtain ⟨path, walk, items, ended⟩ := h.walk
  have path_ne : path ≠ [] := by
    rintro rfl
    exact nonempty items.symm
  have from_walk : ∀ {id path}, nodes.Walk (some id) path →
      endOf path = some (ends strand.label) →
      nodes.endFrom nodes.all.size id = ends strand.label := fun walk ended =>
    Option.some.inj ((endFrom_of_walk walk (Nat.le_succ_of_le walk.length_le)).trans ended)
  cases hhead : chain.head with
  | none =>
    rw [hhead] at walk
    exact absurd (walk.link_eq_none_iff.1 rfl) path_ne
  | some head =>
    rw [hhead] at walk
    simp only [lastNode?, hhead, Option.map_some, Option.some.injEq]
    cases hlast : chain.last with
    | none => exact from_walk walk (ended path_ne)
    | some last =>
      dsimp only
      split
      · rename_i there
        obtain ⟨seen, walk', ended'⟩ := h.memory last hlast there nonempty
        exact from_walk walk' ended'
      · exact from_walk walk (ended path_ne)

/-- An empty chain has no last node. -/
theorem lastNode?_eq_none (h : Shows nodes ends chain strand) (blank : strand.items = []) :
    nodes.lastNode? chain = none := by
  have := h.isEmpty_iff.2 blank
  rw [Chain.isEmpty, Option.isNone_iff_eq_none] at this
  simp only [lastNode?, this, Option.map_none]

/-- What a chain shows, if the nodes that it can reach and the end of its strand are the same. -/
theorem imp (h : Shows nodes ends chain strand) (size : nodes.all.size ≤ nodes'.all.size)
    (label : strand.items ≠ [] → ends' strand.label = ends strand.label)
    (walks : ∀ path, nodes.Walk chain.head path → nodes'.Walk chain.head path)
    (memory : ∀ last ∈ chain.last, (nodes'.node? last).isSome → (nodes.node? last).isSome ∧
      ∀ path, nodes.Walk (some last) path → nodes'.Walk (some last) path) :
    Shows nodes' ends' chain strand where
  walk := by
    obtain ⟨path, walk, items, ended⟩ := h.walk
    refine ⟨path, walks path walk, items, fun path_ne => ?_⟩
    rw [label (by rwa [← items, Ne, List.map_eq_nil_iff]), ended path_ne]
  known last hlast := Nat.lt_of_lt_of_le (h.known last hlast) size
  memory last hlast there nonempty := by
    obtain ⟨there', walks'⟩ := memory last hlast there
    obtain ⟨path, walk, ended⟩ := h.memory last hlast there' nonempty
    exact ⟨path, walks' path walk, by rw [label nonempty, ended]⟩

/-- A new node makes no difference to a chain. -/
theorem add (h : Shows nodes ends chain strand) (node : Node α)
    (label : strand.items ≠ [] → ends' strand.label = ends strand.label) :
    Shows (nodes.add node).2 ends' chain strand := by
  refine h.imp (by rw [size_add]; omega) label (fun path walk => walk.add node)
    fun last hlast there => ⟨?_, fun path walk => walk.add node⟩
  rwa [node?_add, if_neg (Nat.ne_of_lt (h.known last hlast))] at there

/-- A chain that is held does not notice that nodes are reclaimed. -/
theorem reclaim {held : List Chain} (walks : ∀ chain ∈ held, ∃ path, nodes.Walk chain.head path)
    (holds : chain ∈ held) (h : Shows nodes ends chain strand) :
    Shows (nodes.reclaim held) ends chain strand := by
  refine h.imp (Nat.le_of_eq (size_reclaim nodes held).symm) (fun _ => rfl)
    (fun path walk => walk.reclaim holds) fun last hlast there => ?_
  obtain ⟨node, left⟩ := Option.isSome_iff_exists.1 there
  obtain ⟨path, walk, walk'⟩ := Walk.of_node?_reclaim walks left
  refine ⟨?_, fun path' walk'' => walk.unique walk'' ▸ walk'⟩
  cases walk with
  | visit found rest => rw [found]; rfl

/-- A chain that shows nothing. -/
theorem blank (nodes : Nodes α) (ends : Nat → NodeId) (label : Nat) :
    Shows nodes ends .empty ⟨[], label⟩ where
  walk := ⟨[], .done, rfl, fun h => absurd rfl h⟩
  known _ h := by cases h
  memory _ h := by cases h

/-- The tail of a chain may remember a node before its head, or one that it has passed. -/
theorem tail (h : Shows nodes ends chain strand) :
    Shows nodes ends (nodes.tail chain) { strand with items := strand.items.tail } := by
  obtain ⟨path, walk, items, ended⟩ := h.walk
  have rest : ∃ path, nodes.Walk (nodes.tail chain).head path ∧
      path.map Prod.snd = strand.items.tail ∧
      (path ≠ [] → endOf path = some (ends strand.label)) := by
    rw [← items, Nodes.tail]
    generalize chain.head = link at walk
    cases walk with
    | done => exact ⟨[], .done, rfl, fun h => absurd rfl h⟩
    | @visit id node path found rest =>
      refine ⟨path, ?_, rfl, fun path_ne => ?_⟩
      · simpa only [Option.bind_some, found] using rest
      · rw [← ended (List.cons_ne_nil _ _), endOf_cons_of_ne_nil path_ne]
  refine ⟨rest, h.known, fun last hlast there nonempty => h.memory last hlast there ?_⟩
  intro none_left
  rw [none_left] at nonempty
  exact nonempty rfl

/-- A chain of one node that has just been made. -/
theorem single (nodes : Nodes α) (element : α) {label : Nat} (label_eq : ends label = nodes.all.size) :
    Shows (nodes.add ⟨element, none⟩).2 ends ⟨some nodes.all.size, some nodes.all.size⟩
      ⟨[element], label⟩ := by
  have made : (nodes.add ⟨element, none⟩).2.Walk (some nodes.all.size)
      [(nodes.all.size, element)] :=
    Walk.visit (node?_add_self nodes ⟨element, none⟩) .done
  refine ⟨⟨_, made, rfl, fun _ => congrArg some label_eq.symm⟩, fun last hlast => ?_,
    fun last hlast _ _ => ?_⟩
  · cases hlast
    exact Nat.lt_of_lt_of_eq (Nat.lt_succ_self _) (size_add ..).symm
  · cases hlast
    exact ⟨_, made, congrArg some label_eq.symm⟩

/-- A chain that is not empty has got another node in front; its memory is as good as before. -/
theorem push (h : Shows nodes ends chain strand) (nonempty : strand.items ≠ []) (element : α) :
    Shows (nodes.add ⟨element, chain.head⟩).2 ends ⟨some nodes.all.size, chain.last⟩
      { strand with items := element :: strand.items } := by
  have kept := h.add ⟨element, chain.head⟩ fun _ => rfl
  obtain ⟨path, walk, items, ended⟩ := kept.walk
  have path_ne : path ≠ [] := by
    rintro rfl
    exact nonempty items.symm
  refine ⟨⟨(nodes.all.size, element) :: path, ?_, congrArg (element :: ·) items, fun _ => ?_⟩,
    kept.known, fun last hlast there _ => kept.memory last hlast there nonempty⟩
  · exact Walk.visit (node?_add_self nodes ⟨element, chain.head⟩) walk
  · rw [endOf_cons_of_ne_nil path_ne, ended path_ne]

/-- The node at the end of a strand has got a link to a new one.  A chain notices if and only if its
strand has the same label. -/
theorem extend (h : Shows nodes ends chain strand) {nextLabel label : Nat} {last : Node α}
    {element : α} (there : nodes.node? (ends label) = some last) (free : last.next = none)
    (labelled : Labelled ends nextLabel nodes.all.size) (bound : label < nextLabel)
    (own : strand.items ≠ [] → strand.label < nextLabel) :
    Shows ((nodes.add ⟨element, none⟩).2.link (ends label) nodes.all.size)
      (Function.update ends label nodes.all.size) chain (strand.extend label element) := by
  -- a walk to the end of the strand of this label goes on to the new node, and no other walk does
  have walks : ∀ {place path}, nodes.Walk place path → endOf path = some (ends strand.label) →
      strand.items ≠ [] → ∃ more,
        ((nodes.add ⟨element, none⟩).2.link (ends label) nodes.all.size).Walk place (path ++ more) ∧
        (strand.extend label element).items = strand.items ++ more.map Prod.snd ∧
        endOf (path ++ more) = some (Function.update ends label nodes.all.size
          (strand.extend label element).label) := by
    intro place path walk ended nonempty
    have linked := (walk.add ⟨element, none⟩).link (node?_add_of_some there _) free
      (Walk.of_new there element)
    rw [ended] at linked
    by_cases same : strand.label = label
    · rw [if_pos (congrArg (some <| ends ·) same)] at linked
      refine ⟨_, linked, ?_, ?_⟩
      · simp only [Strand.extend, nonempty, same, ne_eq, not_false_eq_true, and_self, if_true,
          List.map_cons, List.map_nil]
      · simp only [Strand.extend, nonempty, same, ne_eq, not_false_eq_true, and_self, if_true,
          endOf_append_singleton, Function.update_self]
    · have other : ends strand.label ≠ ends label := fun h =>
        same (labelled.injective _ (own nonempty) _ bound h)
      rw [if_neg (fun h => other (Option.some.inj h))] at linked
      refine ⟨[], by rwa [List.append_nil], ?_, ?_⟩
      · simp only [Strand.extend, same, and_false, if_false, List.map_nil, List.append_nil]
      · simp only [Strand.extend, same, and_false, if_false, List.append_nil, ended,
          Function.update_of_ne same, ne_eq]
  obtain ⟨path, walk, items, ended⟩ := h.walk
  have extends_nil : strand.items = [] → strand.extend label element = strand := by
    intro blank
    simp only [Strand.extend, blank, ne_eq, not_true_eq_false, false_and, if_false]
  refine ⟨?_, fun last hlast => ?_, fun last hlast there' nonempty' => ?_⟩
  · by_cases nonempty : strand.items = []
    · rw [extends_nil nonempty]
      have path_nil : path = [] := by rwa [← items, List.map_eq_nil_iff] at nonempty
      have head_none := walk.link_eq_none_iff.2 path_nil
      refine ⟨[], ?_, nonempty.symm, fun h => absurd rfl h⟩
      rw [head_none]
      exact .done
    · have path_ne : path ≠ [] := by rwa [← items, List.map_eq_nil_iff] at nonempty
      obtain ⟨more, walk', items', ended'⟩ := walks walk (ended path_ne) nonempty
      exact ⟨_, walk', by rw [List.map_append, items, items'], fun _ => ended'⟩
  · rw [size_link, size_add]
    exact Nat.lt_succ_of_lt (h.known last hlast)
  · have nonempty : strand.items ≠ [] := fun blank => by
      rw [extends_nil blank] at nonempty'
      exact nonempty' blank
    have there'' : (nodes.node? last).isSome := by
      rw [node?_link] at there'
      split at there'
      · rename_i hlast'
        rw [← hlast', there]
        rfl
      · rwa [node?_add, if_neg (Nat.ne_of_lt (h.known last hlast))] at there'
    obtain ⟨seen, walk', ended'⟩ := h.memory last hlast there'' nonempty
    obtain ⟨more, walk'', -, ended''⟩ := walks walk' ended' nonempty
    exact ⟨_, walk'', ended''⟩

end Shows

/-! ## 4. Numbers

Chains are held under numbers, and may be let go. -/

section Numbers

variable {β γ : Type} (entries : Array (Option β))

/-- A new entry gets the next number. -/
theorem join_getElem?_push (entry : Option β) (number : Nat) :
    (entries.push entry)[number]?.join =
      if number = entries.size then entry else entries[number]?.join := by
  rw [Array.getElem?_push]
  split <;> rfl

/-- To change an entry changes no other one. -/
theorem join_getElem?_setIfInBounds {number : Nat} (h : number < entries.size) (entry : Option β)
    (other : Nat) : (entries.setIfInBounds number entry)[other]?.join =
      if number = other then entry else entries[other]?.join := by
  rw [Array.getElem?_setIfInBounds, if_pos h]
  split <;> rfl

theorem join_getElem?_map (f : β → γ) (number : Nat) :
    (entries.map (Option.map f))[number]?.join = entries[number]?.join.map f := by
  rw [Array.getElem?_map]
  cases entries[number]? <;> rfl

theorem lt_size_of_join {entries : Array (Option β)} {number : Nat} {entry : β}
    (h : entries[number]?.join = some entry) : number < entries.size := by
  rw [Option.join_eq_some_iff] at h
  exact (Array.getElem?_eq_some_iff.1 h).1

end Numbers

/-! ## 5. What every operation keeps

One lemma for each operation on a pool. -/

/-- A pool and strands with the same numbers, where `ends` gives the last node of each label. -/
structure Refines (ends : Nat → NodeId) (pool : ChainPool α) (strands : Strands α) : Prop where
  size : pool.chains.size = strands.all.size
  shows : ∀ number,
    Option.Rel (Shows pool.nodes ends) (pool.chain? number) (strands.strand? number)
  walks : ∀ id node, pool.nodes.node? id = some node → ∃ path, pool.nodes.Walk (some id) path
  labels : ∀ number, ∀ strand ∈ strands.strand? number, strand.items ≠ [] →
    strand.label < strands.nextLabel
  labelled : Labelled ends strands.nextLabel pool.nodes.all.size

namespace Refines

variable {ends : Nat → NodeId} {pool : ChainPool α} {strands : Strands α}

/-- A pool without chains. -/
theorem empty : Refines ends (ChainPool.empty : ChainPool α) .empty where
  size := rfl
  shows _ := .none
  walks id node h := by cases h
  labels _ _ h := by cases h
  labelled := ⟨fun _ h => absurd h (Nat.not_lt_zero _), fun _ h => absurd h (Nat.not_lt_zero _)⟩

/-- A chain is there if and only if its strand is, and then shows it. -/
theorem cases (h : Refines ends pool strands) (number : Nat) :
    (pool.chain? number = none ∧ strands.strand? number = none) ∨
    ∃ chain strand, pool.chain? number = some chain ∧ strands.strand? number = some strand ∧
      Shows pool.nodes ends chain strand := by
  have shows := h.shows number
  cases hchain : pool.chain? number <;> cases hstrand : strands.strand? number <;>
    rw [hchain, hstrand] at shows <;> cases shows
  · exact Or.inl ⟨rfl, rfl⟩
  · exact Or.inr ⟨_, _, rfl, rfl, ‹_›⟩

/-- From each chain that is held there is a walk. -/
theorem walk_of_held (h : Refines ends pool strands) {number : Nat} {chain : Chain}
    (held : pool.chain? number = some chain) : ∃ path, pool.nodes.Walk chain.head path := by
  have shows := h.shows number
  rw [held] at shows
  generalize strands.strand? number = entry at shows
  cases shows with
  | some shows =>
    obtain ⟨path, walk, -⟩ := shows.walk
    exact ⟨path, walk⟩

/-- One more chain on the nodes that there are. -/
theorem add (h : Refines ends pool strands) {chain : Chain} {strand : Strand α}
    (shows : Shows pool.nodes ends chain strand)
    (label : strand.items ≠ [] → strand.label < strands.nextLabel) :
    Refines ends (pool.add chain).2 (strands.add strand) where
  size := by simp only [ChainPool.add, Strands.add, Array.size_push, h.size]
  shows number := by
    simp only [ChainPool.chain?, Strands.strand?, ChainPool.add, Strands.add, join_getElem?_push,
      h.size]
    split
    · exact .some shows
    · exact h.shows number
  walks := h.walks
  labels number other hother := by
    simp only [Strands.strand?, Strands.add, join_getElem?_push] at hother
    split at hother
    · cases hother
      exact label
    · exact h.labels number other hother
  labelled := h.labelled

/-- A chain is put in place of another one.  The other chains show what they showed in the nodes as
they are now. -/
theorem replace (h : Refines ends pool strands) {number : Nat} {old : Chain}
    (held : pool.chain? number = some old) {nodes : Nodes α} {ends' : Nat → NodeId}
    {nextLabel : Nat} {chain : Chain} {strand : Strand α}
    (shows : Shows nodes ends' chain strand)
    (others : ∀ chain strand, Shows pool.nodes ends chain strand →
      (strand.items ≠ [] → strand.label < strands.nextLabel) → Shows nodes ends' chain strand)
    (walks : ∀ id node, nodes.node? id = some node → ∃ path, nodes.Walk (some id) path)
    (le : strands.nextLabel ≤ nextLabel)
    (label : strand.items ≠ [] → strand.label < nextLabel)
    (labelled : Labelled ends' nextLabel nodes.all.size) :
    Refines ends' ⟨nodes, pool.chains.setIfInBounds number (some chain)⟩
      ⟨strands.all.setIfInBounds number (some strand), nextLabel⟩ where
  size := by simp only [Array.size_setIfInBounds, h.size]
  shows other := by
    have bound := lt_size_of_join held
    simp only [ChainPool.chain?, Strands.strand?, join_getElem?_setIfInBounds _ bound,
      join_getElem?_setIfInBounds _ (h.size ▸ bound)]
    split
    · exact .some shows
    · have old := h.shows other
      have labels := h.labels other
      simp only [ChainPool.chain?, Strands.strand?] at old labels
      generalize pool.chains[other]?.join = entry at old
      generalize strands.all[other]?.join = entry' at old labels
      cases old with
      | none => exact .none
      | some old => exact .some (others _ _ old (labels _ rfl))
  walks := walks
  labels other strand' hstrand := by
    simp only [Strands.strand?, join_getElem?_setIfInBounds _ (h.size ▸ lt_size_of_join held)]
      at hstrand
    split at hstrand
    · cases hstrand
      exact label
    · exact fun nonempty => Nat.lt_of_lt_of_le (h.labels other strand' hstrand nonempty) le
  labelled := labelled

/-- An element for a chain that shows none: a chain of one new node, under a new label. -/
theorem restart (h : Refines ends pool strands) {number : Nat} {old : Chain}
    (held : pool.chain? number = some old) (element : α) :
    Refines (Function.update ends strands.nextLabel pool.nodes.all.size)
      ⟨(pool.nodes.add ⟨element, none⟩).2, pool.chains.setIfInBounds number
        (some ⟨some pool.nodes.all.size, some pool.nodes.all.size⟩)⟩
      (strands.restart number element) := by
  have others : ∀ label < strands.nextLabel,
      Function.update ends strands.nextLabel pool.nodes.all.size label = ends label :=
    fun label lt => Function.update_of_ne (Nat.ne_of_lt lt) ..
  have fresh : Function.update ends strands.nextLabel pool.nodes.all.size strands.nextLabel =
      pool.nodes.all.size :=
    Function.update_self ..
  refine h.replace held (.single pool.nodes element fresh)
    (fun chain strand shows label => shows.add _ fun nonempty => others _ (label nonempty))
    (walks_add h.walks .done) (Nat.le_succ _) (fun _ => Nat.lt_succ_self _) ?_
  rw [size_add]
  exact h.labelled.update fun a ha other => Nat.lt_of_le_of_ne (Nat.le_of_lt_succ ha) other

/-- An element behind the last one of a chain, and of all chains that end in the same node. -/
theorem pushBack (h : Refines ends pool strands) {number : Nat} {chain : Chain} {strand : Strand α}
    (held : pool.chain? number = some chain) (stands : strands.strand? number = some strand)
    (shows : Shows pool.nodes ends chain strand) (nonempty : strand.items ≠ []) (element : α) :
    Refines (Function.update ends strand.label pool.nodes.all.size)
      ⟨(pool.nodes.add ⟨element, none⟩).2.link (ends strand.label) pool.nodes.all.size,
        pool.chains.setIfInBounds number (some ⟨chain.head, some pool.nodes.all.size⟩)⟩
      ⟨strands.all.map (Option.map (Strand.extend strand.label element)), strands.nextLabel⟩ := by
  have bound := h.labels number strand stands nonempty
  obtain ⟨path, walk, items, ended⟩ := shows.walk
  have path_ne : path ≠ [] := by rwa [← items, Ne, List.map_eq_nil_iff] at nonempty
  obtain ⟨last, there, free⟩ := walk.free_of_endOf (ended path_ne)
  have extended : ∀ {chain' strand'}, Shows pool.nodes ends chain' strand' →
      (strand'.items ≠ [] → strand'.label < strands.nextLabel) →
      Shows ((pool.nodes.add ⟨element, none⟩).2.link (ends strand.label) pool.nodes.all.size)
        (Function.update ends strand.label pool.nodes.all.size) chain'
        (strand'.extend strand.label element) :=
    fun shows' own => shows'.extend there free h.labelled bound own
  have kept := node?_add_of_some there ⟨element, none⟩
  have made := Walk.of_new there element
  -- the chain itself remembers the new node from now on
  have own : Shows ((pool.nodes.add ⟨element, none⟩).2.link (ends strand.label) pool.nodes.all.size)
      (Function.update ends strand.label pool.nodes.all.size)
      ⟨chain.head, some pool.nodes.all.size⟩ (strand.extend strand.label element) := by
    refine ⟨(extended shows fun _ => bound).walk, fun last hlast => ?_, fun last hlast _ _ => ?_⟩
    · cases hlast
      rw [size_link, size_add]
      exact Nat.lt_succ_self _
    · cases hlast
      refine ⟨_, made, ?_⟩
      have label : (strand.extend strand.label element).label = strand.label := by
        unfold Strand.extend
        split <;> rfl
      rw [label, Function.update_self]
      rfl
  constructor
  case size => simp only [Array.size_setIfInBounds, Array.size_map, h.size]
  case shows =>
    intro other
    simp only [ChainPool.chain?, Strands.strand?, join_getElem?_map,
      join_getElem?_setIfInBounds _ (lt_size_of_join held)]
    split
    · rename_i same
      subst same
      simp only [Strands.strand?] at stands
      rw [stands]
      exact .some own
    · have old := h.shows other
      have labels := h.labels other
      simp only [ChainPool.chain?, Strands.strand?] at old labels
      generalize pool.chains[other]?.join = entry at old
      generalize strands.all[other]?.join = entry' at old labels
      cases old with
      | none => exact .none
      | some old => exact .some (extended old (labels _ rfl))
  case walks =>
    intro id node found
    obtain ⟨path, walk⟩ : ∃ path, (pool.nodes.add ⟨element, none⟩).2.Walk (some id) path := by
      rw [node?_link] at found
      split at found
      · rename_i same
        exact walks_add h.walks .done id last (same ▸ kept)
      · exact walks_add h.walks .done id node found
    exact ⟨_, walk.link kept free made⟩
  case labels =>
    intro other strand' hstrand nonempty'
    simp only [Strands.strand?, join_getElem?_map, Option.mem_def, Option.map_eq_some_iff] at hstrand
    obtain ⟨old, hold, rfl⟩ := hstrand
    have labels := h.labels other old hold
    unfold Strand.extend at nonempty' ⊢
    split
    · exact labels (‹_ ∧ _›).1
    · rw [if_neg ‹_›] at nonempty'
      exact labels nonempty'
  case labelled =>
    rw [size_link, size_add]
    exact h.labelled.update fun a ha _ => ha

/-- A chain is dropped, and with it the nodes that no other chain reaches. -/
theorem drop (h : Refines ends pool strands) {number : Nat} {chain : Chain}
    (held : pool.chain? number = some chain) :
    let chains := pool.chains.setIfInBounds number none
    Refines ends ⟨pool.nodes.reclaim (chains.toList.filterMap id), chains⟩
      { strands with all := strands.all.setIfInBounds number none } := by
  intro chains
  have bound := lt_size_of_join held
  have look : ∀ other, chains[other]?.join = if number = other then none else pool.chain? other :=
    join_getElem?_setIfInBounds _ bound none
  have look' : ∀ other, (strands.all.setIfInBounds number none)[other]?.join =
      if number = other then none else strands.strand? other :=
    join_getElem?_setIfInBounds _ (h.size ▸ bound) none
  have holds : ∀ {chain : Chain}, chain ∈ chains.toList.filterMap id ↔
      ∃ other : Nat, chains[other]?.join = some chain := by
    intro chain
    rw [List.mem_filterMap]
    simp only [id_eq, exists_eq_right, Option.join_eq_some_iff]
    rw [List.mem_iff_getElem?]
    simp only [Array.getElem?_toList]
  have walks : ∀ chain ∈ chains.toList.filterMap id, ∃ path, pool.nodes.Walk chain.head path := by
    intro chain hchain
    obtain ⟨other, hother⟩ := holds.1 hchain
    rw [look] at hother
    split at hother
    · cases hother
    · exact h.walk_of_held hother
  constructor
  case size => simp only [chains, Array.size_setIfInBounds, h.size]
  case shows =>
    intro other
    rw [ChainPool.chain?, Strands.strand?, look']
    have held' : ∀ chain, chains[other]?.join = some chain → chain ∈ chains.toList.filterMap id :=
      fun _ there => holds.2 ⟨other, there⟩
    dsimp only
    rw [look] at held' ⊢
    split
    · exact .none
    · rename_i ne
      rw [if_neg ne] at held'
      have shows := h.shows other
      generalize strands.strand? other = entry at shows ⊢
      cases hchain : pool.chain? other with
      | none =>
        rw [hchain] at shows
        cases shows
        exact .none
      | some chain =>
        rw [hchain] at shows
        cases shows with
        | some shows => exact .some (shows.reclaim walks (held' chain hchain))
  case walks =>
    intro id node left
    obtain ⟨path, -, walk⟩ := Walk.of_node?_reclaim walks left
    exact ⟨path, walk⟩
  case labels =>
    intro other strand hstrand
    rw [Strands.strand?, look'] at hstrand
    split at hstrand
    · cases hstrand
    · exact h.labels other strand hstrand
  case labelled =>
    rw [size_reclaim]
    exact h.labelled

/-- **Every operation does to a pool what it does to its strands.** -/
theorem step (h : Refines ends pool strands) (op : ChainOp α) :
    ∃ ends', Refines ends' (pool.step op) (strands.step op) := by
  cases op with
  | new => exact ⟨ends, h.add (.blank _ _ _) fun nonempty => absurd rfl nonempty⟩
  | push number element =>
    simp only [ChainPool.step, ChainPool.push?, ChainPool.update?, Strands.step]
    rcases h.cases number with ⟨held, stands⟩ | ⟨chain, ⟨items, label⟩, held, stands, shows⟩
    · rw [held, stands]
      exact ⟨ends, h⟩
    rw [held, stands]
    cases items with
    | nil =>
      have empty := shows.isEmpty_iff.2 rfl
      have head : chain.head = none := Option.isNone_iff_eq_none.1 empty
      simp only [Option.map, Option.getD, Nodes.push, empty, head, if_true]
      exact ⟨_, h.restart held element⟩
    | cons first rest =>
      have nonempty : chain.isEmpty = false :=
        Bool.eq_false_iff.2 fun empty => List.cons_ne_nil _ _ (shows.isEmpty_iff.1 empty)
      have bound := h.labels number ⟨first :: rest, label⟩ stands (List.cons_ne_nil _ _)
      obtain ⟨path, walk, -⟩ := shows.walk
      simp only [Option.map, Option.getD, Nodes.push, nonempty, Bool.false_eq_true, if_false]
      refine ⟨ends, h.replace held (shows.push (List.cons_ne_nil _ _) element)
        (fun chain strand shows _ => shows.add _ fun _ => rfl) (walks_add h.walks walk)
        (Nat.le_refl _) (fun _ => bound) ?_⟩
      rw [size_add]
      exact ⟨fun label lt => Nat.lt_succ_of_lt (h.labelled.known label lt), h.labelled.injective⟩
  | pushBack number element =>
    simp only [ChainPool.step, ChainPool.pushBack?, ChainPool.update?, Strands.step]
    rcases h.cases number with ⟨held, stands⟩ | ⟨chain, ⟨items, label⟩, held, stands, shows⟩
    · rw [held, stands]
      exact ⟨ends, h⟩
    rw [held, stands]
    cases items with
    | nil =>
      simp only [Option.map, Option.getD, Nodes.pushBack, shows.lastNode?_eq_none rfl]
      exact ⟨_, h.restart held element⟩
    | cons first rest =>
      have last := shows.lastNode?_eq (List.cons_ne_nil _ _)
      simp only [Option.map, Option.getD, Nodes.pushBack, last]
      exact ⟨_, h.pushBack held stands shows (List.cons_ne_nil _ _) element⟩
  | copy number =>
    refine ⟨ends, ?_⟩
    simp only [ChainPool.step, ChainPool.copy?, Strands.step]
    rcases h.cases number with ⟨held, stands⟩ | ⟨chain, strand, held, stands, shows⟩ <;>
      rw [held, stands]
    · exact h
    · exact h.add shows (h.labels number strand stands)
  | tail number =>
    refine ⟨ends, ?_⟩
    simp only [ChainPool.step, ChainPool.tail?, Strands.step]
    rcases h.cases number with ⟨held, stands⟩ | ⟨chain, strand, held, stands, shows⟩ <;>
      rw [held, stands]
    · exact h
    · exact h.add shows.tail fun nonempty => h.labels number strand stands fun blank =>
        nonempty (by rw [blank]; rfl)
  | drop number =>
    refine ⟨ends, ?_⟩
    simp only [ChainPool.step, ChainPool.drop?, Strands.step]
    rcases h.cases number with ⟨held, stands⟩ | ⟨chain, strand, held, stands, -⟩ <;>
      rw [held, stands]
    · exact h
    · exact h.drop held

/-- A pool and its strands after the same operations. -/
theorem after (ops : List (ChainOp α)) :
    ∃ ends, Refines ends (ChainPool.after ops) (Strands.after ops) := by
  suffices h : ∀ (pool : ChainPool α) (strands : Strands α), (∃ ends, Refines ends pool strands) →
      ∃ ends, Refines ends (ops.foldl ChainPool.step pool) (ops.foldl Strands.step strands) from
    h _ _ ⟨fun _ => 0, .empty⟩
  intro pool strands h
  induction ops generalizing pool strands with
  | nil => exact h
  | cons op rest ih =>
    obtain ⟨ends, h⟩ := h
    exact ih _ _ (h.step op)

end Refines

/-! ## 6. Pools and strands

By induction on the operations. -/

section Reached

variable {ends : Nat → NodeId} {pool : ChainPool α} {strands : Strands α}

/-- What a chain with a number shows. -/
theorem Refines.toList?_eq (h : Refines ends pool strands) (number : Nat) :
    pool.toList? number = (strands.strand? number).map Strand.items := by
  rcases h.cases number with ⟨held, stands⟩ | ⟨chain, strand, held, stands, shows⟩ <;>
    rw [ChainPool.toList?, held, stands]
  · rfl
  · exact congrArg some shows.toList_eq

/-- The last node of a chain, empty or not, is the one at which the walk from its head ends. -/
theorem Shows.lastNode?_eq_endOf {chain : Chain} {strand : Strand α}
    (h : Shows pool.nodes ends chain strand) :
    pool.nodes.lastNode? chain = endOf (pool.nodes.path chain) := by
  obtain ⟨path, walk, items, ended⟩ := h.walk
  rw [path_of_walk walk]
  by_cases blank : path = []
  · subst blank
    exact h.lastNode?_eq_none items.symm
  · rw [ended blank]
    exact h.lastNode?_eq (by rwa [← items, Ne, List.map_eq_nil_iff])

/-- Strands that are not empty have the same label if and only if their chains have the same last
node. -/
theorem Refines.label_eq_iff (h : Refines ends pool strands) {a b : Nat} {chain chain' : Chain}
    {strand strand' : Strand α} (held : pool.chain? a = some chain)
    (held' : pool.chain? b = some chain') (stands : strands.strand? a = some strand)
    (stands' : strands.strand? b = some strand') (nonempty : strand.items ≠ [])
    (nonempty' : strand'.items ≠ []) :
    strand.label = strand'.label ↔ pool.nodes.lastNode? chain = pool.nodes.lastNode? chain' := by
  have shows := h.shows a
  have shows' := h.shows b
  rw [held, stands] at shows
  rw [held', stands'] at shows'
  cases shows with
  | some shows =>
    cases shows' with
    | some shows' =>
      rw [shows.lastNode?_eq nonempty, shows'.lastNode?_eq nonempty', Option.some.injEq]
      exact ⟨congrArg ends, h.labelled.injective _ (h.labels a _ stands nonempty) _
        (h.labels b _ stands' nonempty')⟩

/-- An element put at the end of a chain that is not empty comes to the chains with the same last
node, and to no others. -/
theorem Refines.toList?_pushBack (h : Refines ends pool strands) {number other : Nat}
    {chain chain' : Chain} (held : pool.chain? number = some chain)
    (nonempty : chain.isEmpty = false) (held' : pool.chain? other = some chain') (element : α) :
    (pool.step (.pushBack number element)).toList? other =
      some (pool.nodes.toList chain' ++
        if pool.nodes.lastNode? chain' = pool.nodes.lastNode? chain then [element] else []) := by
  obtain ⟨ends', h'⟩ := h.step (.pushBack number element)
  rcases h.cases number with ⟨none, -⟩ | ⟨_, ⟨items, label⟩, some, stands, shows⟩
  · cases held.symm.trans none
  obtain rfl := Option.some.inj (held.symm.trans some)
  rcases h.cases other with ⟨none, -⟩ | ⟨_, strand', some', stands', shows'⟩
  · cases held'.symm.trans none
  obtain rfl := Option.some.inj (held'.symm.trans some')
  have items_ne : items ≠ [] := fun blank => by
    rw [shows.isEmpty_iff.2 blank] at nonempty
    cases nonempty
  obtain ⟨first, rest, rfl⟩ := List.exists_cons_of_ne_nil items_ne
  have same : (strand'.items ≠ [] ∧ strand'.label = label) ↔
      pool.nodes.lastNode? chain' = pool.nodes.lastNode? chain := by
    by_cases blank : strand'.items = []
    · rw [shows'.lastNode?_eq_none blank, shows.lastNode?_eq items_ne]
      simp only [blank, ne_eq, not_true_eq_false, false_and, reduceCtorEq]
    · rw [and_iff_right blank]
      exact h.label_eq_iff held' held stands' stands blank items_ne
  rw [h'.toList?_eq, shows'.toList_eq]
  simp only [Strands.step, stands]
  have := stands'
  simp only [Strands.strand?] at this
  simp only [Strands.strand?, join_getElem?_map, this, Option.map_some, Strand.extend, same]
  split
  · rfl
  · rw [List.append_nil]

end Reached

/-- **A pool is its strands**, whatever has been done to its chains.  Links have no cycles; what a
chain shows is all of the walk from its head, and its last node is the one at which that walk ends,
wherever the chain remembers one; the elements of each chain are those of its strand, and chains
share an end exactly if their strands do; so an element put at the end of a chain that is not empty
comes to the chains that end in the same node and to no others. -/
theorem pools_refine_strands (ops : List (ChainOp α)) :
    let pool := ChainPool.after ops
    let strands := Strands.after ops
    (∀ id, ¬ Relation.TransGen pool.nodes.Links id id) ∧
    (∀ number, ∀ chain ∈ pool.chain? number,
      pool.nodes.Walk chain.head (pool.nodes.path chain) ∧
      pool.nodes.lastNode? chain = endOf (pool.nodes.path chain)) ∧
    (∀ number, pool.toList? number = (strands.strand? number).map Strand.items) ∧
    (∀ a b, ∀ chain ∈ pool.chain? a, ∀ chain' ∈ pool.chain? b, ∀ strand ∈ strands.strand? a,
      ∀ strand' ∈ strands.strand? b, strand.items ≠ [] → strand'.items ≠ [] →
      (strand.label = strand'.label ↔
        pool.nodes.lastNode? chain = pool.nodes.lastNode? chain')) ∧
    (∀ number element, ∀ chain ∈ pool.chain? number, chain.isEmpty = false →
      ∀ other, ∀ chain' ∈ pool.chain? other,
      (ChainPool.after (ops ++ [.pushBack number element])).toList? other =
        some (pool.nodes.toList chain' ++
          if pool.nodes.lastNode? chain' = pool.nodes.lastNode? chain then [element] else [])) := by
  intro pool strands
  obtain ⟨ends, h⟩ := Refines.after ops
  refine ⟨acyclic_of_walks h.walks, fun number chain held => ?_, h.toList?_eq,
    fun a b chain held chain' held' strand stands strand' stands' nonempty nonempty' =>
      h.label_eq_iff held held' stands stands' nonempty nonempty',
    fun number element chain held nonempty other chain' held' => ?_⟩
  · rcases h.cases number with ⟨none, -⟩ | ⟨_, strand, some, -, shows⟩
    · cases Option.mem_def.1 held ▸ none
    obtain rfl := Option.some.inj (Option.mem_def.1 held ▸ some)
    obtain ⟨path, walk, -⟩ := shows.walk
    exact ⟨path_of_walk walk ▸ walk, shows.lastNode?_eq_endOf⟩
  · rw [ChainPool.after, List.foldl_append]
    exact h.toList?_pushBack held nonempty held' element

end Lox
