/-
# Walks along a chain

A walk follows the links from a place until there is none.  `Nodes.Walk` says what such a walk
meets, without any bound on its steps.  There is at most one walk from a place (`Walk.unique`), and
it meets no node twice (`Walk.nodup`); hence the functions that follow links for a bounded number of
steps get to the end of every walk (`path_of_walk`, `endFrom_of_walk`), and where all walks end
there is no cycle of links (`acyclic_of_walks`).

§3 has what becomes of a walk when a node is added or linked, and when nodes are reclaimed.
-/
import Mathlib.Data.List.Perm.Subperm
import Mathlib.Logic.Relation
import Lox.Proofs.Value.Heap

namespace Lox.Nodes

variable {α : Type} {nodes : Nodes α}

/-! ## 1. Walks

A walk is a finite list by definition, so where there is one the links do not lead around in
circles. -/

/-- A node has a link to another one. -/
def Links (nodes : Nodes α) (id next : NodeId) : Prop :=
  ∃ node, nodes.node? id = some node ∧ node.next = some next

/-- What is met on the way from a place along the links, up to the end. -/
inductive Walk (nodes : Nodes α) : Option NodeId → List (NodeId × α) → Prop where
  | done : Walk nodes none []
  | visit {id : NodeId} {node : Node α} {path : List (NodeId × α)}
      (found : nodes.node? id = some node) (rest : Walk nodes node.next path) :
      Walk nodes (some id) ((id, node.element) :: path)

/-- The node at which a walk ends. -/
def endOf (path : List (NodeId × α)) : Option NodeId := path.getLast?.map Prod.fst

theorem endOf_cons_of_ne_nil {path : List (NodeId × α)} (h : path ≠ []) (entry : NodeId × α) :
    endOf (entry :: path) = endOf path := by
  rw [endOf, endOf, List.getLast?_cons_of_ne_nil h]

/-- A walk ends at its last node. -/
theorem endOf_append_singleton (path : List (NodeId × α)) (entry : NodeId × α) :
    endOf (path ++ [entry]) = some entry.1 := by
  rw [endOf, List.getLast?_append]
  rfl

namespace Walk

variable {link : Option NodeId} {path path' : List (NodeId × α)}

/-- There is one walk from a place, since a node has one link. -/
theorem unique (h : nodes.Walk link path) (h' : nodes.Walk link path') : path = path' := by
  induction h generalizing path' with
  | done =>
    cases h'
    rfl
  | visit found rest ih =>
    cases h' with
    | visit found' rest' =>
      obtain rfl := Option.some.inj (found.symm.trans found')
      rw [ih rest']

/-- From each node that a walk meets, the rest of it is a walk. -/
theorem suffix {before after : List (NodeId × α)} {id : NodeId} {element : α}
    (h : nodes.Walk link (before ++ (id, element) :: after)) :
    nodes.Walk (some id) ((id, element) :: after) := by
  induction before generalizing link with
  | nil =>
    cases h with
    | visit found rest => exact .visit found rest
  | cons entry before ih =>
    cases h with
    | visit found rest => exact ih rest

/-- A walk cannot come back to a node: the rest of it from there would be shorter than itself. -/
theorem nodup (h : nodes.Walk link path) : (path.map Prod.fst).Nodup := by
  induction h with
  | done => exact List.nodup_nil
  | @visit id node path found rest ih =>
    refine List.nodup_cons.2 ⟨fun again => ?_, ih⟩
    obtain ⟨⟨id', element⟩, hmem, rfl⟩ := List.mem_map.1 again
    obtain ⟨before, after, rfl⟩ := List.append_of_mem hmem
    have same := congrArg List.length ((Walk.visit found rest).unique rest.suffix)
    simp only [List.length_cons, List.length_append] at same
    omega

theorem lt_size_of_node? {id : NodeId} {node : Node α} (h : nodes.node? id = some node) :
    id < nodes.all.size := by
  simp only [node?, Option.join_eq_some_iff] at h
  exact (Array.getElem?_eq_some_iff.1 h).1

/-- A walk meets nodes that are there. -/
theorem lt_size (h : nodes.Walk link path) : ∀ entry ∈ path, entry.1 < nodes.all.size := by
  induction h with
  | done =>
    intro entry hmem
    cases hmem
  | visit found rest ih =>
    intro entry hmem
    rcases List.mem_cons.1 hmem with rfl | hmem
    · exact lt_size_of_node? found
    · exact ih entry hmem

/-- It meets none of them twice, so it is no longer than there are nodes. -/
theorem length_le (h : nodes.Walk link path) : path.length ≤ nodes.all.size := by
  have within : path.map Prod.fst ⊆ List.range nodes.all.size := by
    intro id hid
    obtain ⟨entry, hmem, rfl⟩ := List.mem_map.1 hid
    exact List.mem_range.2 (h.lt_size entry hmem)
  have := (List.subperm_of_subset h.nodup within).length_le
  rwa [List.length_map, List.length_range] at this

/-- The first step of a walk from a node. -/
theorem ne_nil {id : NodeId} (h : nodes.Walk (some id) path) : path ≠ [] := by
  cases h with
  | visit found rest => exact List.cons_ne_nil _ _

/-- A walk is empty just if it has nowhere to begin. -/
theorem link_eq_none_iff (h : nodes.Walk link path) : link = none ↔ path = [] := by
  cases h <;> simp

/-- The node at which a walk ends has no link. -/
theorem free_of_endOf (h : nodes.Walk link path) {id : NodeId} (ended : endOf path = some id) :
    ∃ node, nodes.node? id = some node ∧ node.next = none := by
  induction h with
  | done => cases ended
  | @visit first node path found rest ih =>
    cases path with
    | nil =>
      obtain rfl := Option.some.inj ended
      exact ⟨node, found, rest.link_eq_none_iff.2 rfl⟩
    | cons entry path =>
      rw [endOf_cons_of_ne_nil (List.cons_ne_nil _ _)] at ended
      exact ih ended

end Walk

/-! ## 2. The bounded functions

The functions that follow links take a number of steps, as their recursion has to end.  Where there
is a walk, the bound is never met. -/

/-- To follow links for enough steps gives the whole walk. -/
theorem follow_of_walk {link : Option NodeId} {path : List (NodeId × α)} (h : nodes.Walk link path)
    {steps : Nat} (le : path.length ≤ steps) : nodes.follow steps link = path := by
  induction h generalizing steps with
  | done => cases steps <;> rfl
  | visit found rest ih =>
    obtain ⟨steps, rfl⟩ : ∃ more, steps = more + 1 := ⟨steps - 1, by simp at le; omega⟩
    simp only [follow, found]
    rw [ih (Nat.le_of_succ_le_succ le)]

/-- What a chain shows is all of the walk from its head. -/
theorem path_of_walk {chain : Chain} {path : List (NodeId × α)} (h : nodes.Walk chain.head path) :
    nodes.path chain = path :=
  follow_of_walk h h.length_le

/-- So it does for the end. -/
theorem endFrom_of_walk {id : NodeId} {path : List (NodeId × α)} (h : nodes.Walk (some id) path)
    {steps : Nat} (le : path.length ≤ steps + 1) : some (nodes.endFrom steps id) = endOf path := by
  induction steps generalizing id path with
  | zero =>
    cases h with
    | visit found rest =>
      obtain rfl := List.eq_nil_of_length_eq_zero (Nat.le_zero.1 (Nat.le_of_succ_le_succ le))
      rfl
  | succ steps ih =>
    cases h with
    | @visit _ node _ found rest =>
      cases hnext : node.next with
      | none =>
        simp only [endFrom, found, Option.bind_some, hnext]
        rw [hnext] at rest
        cases rest
        rfl
      | some next =>
        simp only [endFrom, found, Option.bind_some, hnext]
        rw [hnext] at rest
        rw [endOf_cons_of_ne_nil rest.ne_nil]
        exact ih rest (Nat.le_of_succ_le_succ le)

/-- If the walk from every node ends, then links do not lead back to where they come from. -/
theorem acyclic_of_walks
    (walks : ∀ id node, nodes.node? id = some node → ∃ path, nodes.Walk (some id) path)
    (id : NodeId) : ¬ Relation.TransGen nodes.Links id id := by
  have step : ∀ {a b : NodeId} {path : List (NodeId × α)}, nodes.Links a b →
      nodes.Walk (some a) path → ∃ path', nodes.Walk (some b) path' ∧ path'.length < path.length := by
    rintro a b path ⟨node, found, next⟩ h
    cases h with
    | visit found' rest =>
      obtain rfl := Option.some.inj (found.symm.trans found')
      rw [next] at rest
      exact ⟨_, rest, Nat.lt_succ_self _⟩
  have shorter : ∀ {a b : NodeId} {path : List (NodeId × α)}, Relation.TransGen nodes.Links a b →
      nodes.Walk (some a) path → ∃ path', nodes.Walk (some b) path' ∧ path'.length < path.length := by
    intro a b path links h
    induction links with
    | single last => exact step last h
    | tail _ last ih =>
      obtain ⟨path', h', lt⟩ := ih
      obtain ⟨path'', h'', lt'⟩ := step last h'
      exact ⟨path'', h'', Nat.lt_trans lt' lt⟩
  intro cycle
  obtain ⟨node, found⟩ : ∃ node, nodes.node? id = some node := by
    obtain ⟨_, ⟨node, found, -⟩, -⟩ := Relation.TransGen.head'_iff.1 cycle
    exact ⟨node, found⟩
  obtain ⟨path, h⟩ := walks id node found
  obtain ⟨path', h', lt⟩ := shorter cycle h
  rw [h.unique h'] at lt
  exact Nat.lt_irrefl _ lt

/-! ## 3. Walks in changed nodes

What is known of walks before a change, for each kind of change. -/

/-- A walk depends on no nodes but those that it meets. -/
theorem Walk.of_same {nodes' : Nodes α} {link : Option NodeId} {path : List (NodeId × α)}
    (h : nodes.Walk link path) (same : ∀ entry ∈ path, nodes'.node? entry.1 = nodes.node? entry.1) :
    nodes'.Walk link path := by
  induction h with
  | done => exact .done
  | visit found rest ih =>
    exact .visit ((same _ List.mem_cons_self).trans found)
      (ih fun entry hmem => same entry (List.mem_cons_of_mem _ hmem))

/-- A new node is met by no walk that was there before. -/
theorem Walk.add {link : Option NodeId} {path : List (NodeId × α)} (h : nodes.Walk link path)
    (node : Node α) : (nodes.add node).2.Walk link path :=
  h.of_same fun entry hmem => by
    rw [node?_add, if_neg (Nat.ne_of_lt (h.lt_size entry hmem))]

/-- A new node has the next number. -/
theorem node?_add_self (nodes : Nodes α) (node : Node α) :
    (nodes.add node).2.node? nodes.all.size = some node := by
  rw [node?_add, if_pos rfl]

/-- The nodes that there are stay as they are when another one is made. -/
theorem node?_add_of_some {id : NodeId} {found : Node α} (h : nodes.node? id = some found)
    (node : Node α) : (nodes.add node).2.node? id = some found := by
  rw [node?_add, if_neg (Nat.ne_of_lt (Walk.lt_size_of_node? h)), h]

/-- After a node is added all walks still end, if the walk from its link does. -/
theorem walks_add (walks : ∀ id node, nodes.node? id = some node → ∃ path, nodes.Walk (some id) path)
    {node : Node α} {rest : List (NodeId × α)} (onward : nodes.Walk node.next rest) :
    ∀ id found, (nodes.add node).2.node? id = some found →
      ∃ path, (nodes.add node).2.Walk (some id) path := by
  intro id found there
  rw [node?_add] at there
  split at there
  · rename_i hid
    subst hid
    exact ⟨_, Walk.visit (by rw [node?_add, if_pos rfl]) (onward.add node)⟩
  · obtain ⟨path, walk⟩ := walks id found there
    exact ⟨path, walk.add node⟩

theorem size_add (nodes : Nodes α) (node : Node α) :
    (nodes.add node).2.all.size = nodes.all.size + 1 :=
  Array.size_push _

theorem size_link (nodes : Nodes α) (id next : NodeId) :
    (nodes.link id next).all.size = nodes.all.size :=
  Array.size_modify

/-- To link a node changes the link of that node, and nothing else. -/
theorem node?_link (nodes : Nodes α) (id next other : NodeId) :
    (nodes.link id next).node? other =
      if id = other then (nodes.node? id).map fun node => { node with next := some next }
      else nodes.node? other := by
  simp only [node?, link, Array.getElem?_modify]
  split
  · rename_i h
    subst h
    cases nodes.all[id]? with
    | none => rfl
    | some found => cases found <;> rfl
  · rfl

/-- A node at the end of walks is linked: exactly the walks that end there go on. -/
theorem Walk.link {place : Option NodeId} {path : List (NodeId × α)} (h : nodes.Walk place path)
    {last next : NodeId} {node : Node α} (found : nodes.node? last = some node)
    (free : node.next = none) {more : List (NodeId × α)}
    (onward : (nodes.link last next).Walk (some next) more) :
    (nodes.link last next).Walk place
      (if endOf path = some last then path ++ more else path) := by
  induction h with
  | done => exact .done
  | @visit id node' path found' rest ih =>
    by_cases hid : last = id
    · subst hid
      obtain rfl := Option.some.inj (found.symm.trans found')
      rw [free] at rest
      cases rest
      have linked : (nodes.link last next).node? last = some { node with next := some next } := by
        rw [node?_link, if_pos rfl, found]
        rfl
      simpa [endOf] using Walk.visit linked onward
    · have kept : (nodes.link last next).node? id = some node' := by
        rw [node?_link, if_neg hid, found']
      cases path with
      | nil =>
        rw [if_neg (by simpa [endOf] using fun h => hid h.symm)]
        exact .visit kept ih
      | cons entry path =>
        rw [endOf_cons_of_ne_nil (List.cons_ne_nil _ _)]
        have step := Walk.visit kept ih
        split <;> simpa [*] using step

/-- A new node behind one that was there before is all that is to come. -/
theorem Walk.of_new {last : NodeId} {node : Node α} (there : nodes.node? last = some node)
    (element : α) : ((nodes.add ⟨element, none⟩).2.link last nodes.all.size).Walk
      (some nodes.all.size) [(nodes.all.size, element)] := by
  refine Walk.visit (?_ : _ = some ⟨element, none⟩) .done
  rw [node?_link, if_neg (Nat.ne_of_lt (lt_size_of_node? there)), node?_add_self]

/-- Nodes that no chain holds are gone. -/
theorem node?_reclaim (nodes : Nodes α) (held : List Chain) (id : NodeId) :
    (nodes.reclaim held).node? id =
      if id ∈ held.flatMap fun chain => (nodes.path chain).map Prod.fst then nodes.node? id
      else none := by
  simp only [node?, reclaim, Array.getElem?_mapIdx, List.contains_iff_mem]
  cases nodes.all[id]? with
  | none => simp
  | some found => simp only [Option.map_some]; split <;> rfl

theorem size_reclaim (nodes : Nodes α) (held : List Chain) :
    (nodes.reclaim held).all.size = nodes.all.size :=
  Array.size_mapIdx

/-- The walk of a chain that is held loses no node. -/
theorem Walk.reclaim {held : List Chain} {chain : Chain} (holds : chain ∈ held)
    {path : List (NodeId × α)} (h : nodes.Walk chain.head path) :
    (nodes.reclaim held).Walk chain.head path :=
  h.of_same fun entry hmem => by
    refine (node?_reclaim nodes held entry.1).trans (if_pos (List.mem_flatMap.2 ⟨chain, holds, ?_⟩))
    rw [path_of_walk h]
    exact List.mem_map_of_mem hmem

/-- What is left has been reached by a chain that is held, so the walk from it is still there. -/
theorem Walk.of_node?_reclaim {held : List Chain}
    (walks : ∀ chain ∈ held, ∃ path, nodes.Walk chain.head path) {id : NodeId} {node : Node α}
    (left : (nodes.reclaim held).node? id = some node) :
    ∃ path, nodes.Walk (some id) path ∧ (nodes.reclaim held).Walk (some id) path := by
  rw [node?_reclaim] at left
  split at left
  · rename_i reached
    obtain ⟨chain, holds, hid⟩ := List.mem_flatMap.1 reached
    obtain ⟨path, h⟩ := walks chain holds
    rw [path_of_walk h] at hid
    obtain ⟨⟨id', element⟩, hmem, rfl⟩ := List.mem_map.1 hid
    obtain ⟨before, after, rfl⟩ := List.append_of_mem hmem
    exact ⟨_, h.suffix, (h.reclaim holds).suffix⟩
  · cases left

end Lox.Nodes
