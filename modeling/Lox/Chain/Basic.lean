/-
# Chains: linked lists that share their nodes

A chain is a handle on a singly linked list.  Copies of a handle, and the tail of one, share the
nodes they reach, so that an element put at the end of one chain shows in every chain that runs
into the same last node, while one put in front shows in that chain alone.

The nodes of all chains live in one store, `Nodes`.  A chain remembers the last node that it has
seen, so that an append need not walk the list: the end is found by walking on from there.  That
memory does not keep a node alive.  If the node is gone the walk starts at the head.

A node's link is set at most once, to a node made later; so walks end, and take no more steps than
there are nodes.
-/
namespace Lox

/-- The identity of a node. -/
abbrev NodeId := Nat

/-- A node: an element, and the next node if there is one yet. -/
structure Node (α : Type) where
  element : α
  next : Option NodeId

/-- The nodes made so far; those that have been reclaimed are gone. -/
structure Nodes (α : Type) where
  all : Array (Option (Node α))

/-- A handle on a list. -/
structure Chain where
  head : Option NodeId
  /-- The last node that the handle has seen. -/
  last : Option NodeId
  deriving DecidableEq, Repr

/-- A handle on no nodes. -/
def Chain.empty : Chain := ⟨none, none⟩

/-- Whether a handle reaches no node. -/
def Chain.isEmpty (chain : Chain) : Bool := chain.head.isNone

namespace Nodes

variable {α : Type}

/-- No nodes. -/
def empty : Nodes α := ⟨#[]⟩

/-- A node that is still there. -/
def node? (nodes : Nodes α) (id : NodeId) : Option (Node α) := nodes.all[id]?.join

/-- Makes a node. -/
def add (nodes : Nodes α) (node : Node α) : NodeId × Nodes α :=
  (nodes.all.size, ⟨nodes.all.push (some node)⟩)

/-- Sets the link of a node. -/
def link (nodes : Nodes α) (id next : NodeId) : Nodes α :=
  ⟨nodes.all.modify id (Option.map fun node => { node with next := some next })⟩

/-- The nodes from a link on, at most `steps` of them. -/
def follow (nodes : Nodes α) : (steps : Nat) → Option NodeId → List (NodeId × α)
  | 0, _ => []
  | _, none => []
  | steps + 1, some id =>
    match nodes.node? id with
    | none => []
    | some node => (id, node.element) :: nodes.follow steps node.next

/-- The node at which a walk from a node ends, after at most `steps` steps. -/
def endFrom (nodes : Nodes α) : (steps : Nat) → NodeId → NodeId
  | 0, id => id
  | steps + 1, id =>
    match (nodes.node? id).bind Node.next with
    | none => id
    | some next => nodes.endFrom steps next

/-- The nodes of a chain. -/
def path (nodes : Nodes α) (chain : Chain) : List (NodeId × α) :=
  nodes.follow nodes.all.size chain.head

/-- The elements of a chain. -/
def toList (nodes : Nodes α) (chain : Chain) : List α := (nodes.path chain).map Prod.snd

/-- The number of elements of a chain. -/
def length (nodes : Nodes α) (chain : Chain) : Nat := (nodes.path chain).length

/-- The first element of a chain. -/
def first? (nodes : Nodes α) (chain : Chain) : Option α :=
  (chain.head.bind nodes.node?).map Node.element

/-- The last node of a chain, found from the remembered one if it is still there.  A chain that
reaches no node has none, whatever it remembers. -/
def lastNode? (nodes : Nodes α) (chain : Chain) : Option NodeId :=
  chain.head.map fun head =>
    let start := match chain.last with
      | some last => if (nodes.node? last).isSome then last else head
      | none => head
    nodes.endFrom nodes.all.size start

/-- Puts an element in front. -/
def push (nodes : Nodes α) (chain : Chain) (element : α) : Chain × Nodes α :=
  let (id, nodes) := nodes.add ⟨element, chain.head⟩
  (⟨some id, if chain.isEmpty then some id else chain.last⟩, nodes)

/-- Puts an element at the end. -/
def pushBack (nodes : Nodes α) (chain : Chain) (element : α) : Chain × Nodes α :=
  let last := nodes.lastNode? chain
  let (id, nodes) := nodes.add ⟨element, none⟩
  match last with
  | none => (⟨some id, some id⟩, nodes)
  | some last => (⟨chain.head, some id⟩, nodes.link last id)

/-- The chain from the second element on. -/
def tail (nodes : Nodes α) (chain : Chain) : Chain :=
  ⟨(chain.head.bind nodes.node?).bind Node.next, chain.last⟩

/-- Reclaims the nodes that none of the given chains reaches. -/
def reclaim (nodes : Nodes α) (held : List Chain) : Nodes α :=
  let reached := held.flatMap fun chain => (nodes.path chain).map Prod.fst
  ⟨nodes.all.mapIdx fun id node => if reached.contains id then node else none⟩

end Nodes

end Lox
