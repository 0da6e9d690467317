/-
# Numbered chains

A pool holds any number of chains under numbers that are handed out in order.  A chain can be
copied and dropped; a node lives as long as some chain of the pool reaches it.
-/
import Lox.Chain.Basic

namespace Lox

/-- The chains made so far, without the dropped ones, and their nodes. -/
structure ChainPool (α : Type) where
  nodes : Nodes α
  chains : Array (Option Chain)

namespace ChainPool

variable {α : Type}

/-- No chains. -/
def empty : ChainPool α := ⟨.empty, #[]⟩

/-- The chain with a number. -/
def chain? (pool : ChainPool α) (number : Nat) : Option Chain := pool.chains[number]?.join

/-- Takes a chain in under the next number. -/
def add (pool : ChainPool α) (chain : Chain) : Nat × ChainPool α :=
  (pool.chains.size, { pool with chains := pool.chains.push (some chain) })

/-- Takes in a chain without elements. -/
def new (pool : ChainPool α) : Nat × ChainPool α := pool.add .empty

/-- The elements of a chain. -/
def toList? (pool : ChainPool α) (number : Nat) : Option (List α) :=
  (pool.chain? number).map pool.nodes.toList

/-- Puts the chain that `change` makes in place of one of the pool. -/
def update? (pool : ChainPool α) (number : Nat)
    (change : Nodes α → Chain → Chain × Nodes α) : Option (ChainPool α) :=
  (pool.chain? number).map fun chain =>
    let (chain, nodes) := change pool.nodes chain
    ⟨nodes, pool.chains.setIfInBounds number (some chain)⟩

/-- Puts an element in front of a chain. -/
def push? (pool : ChainPool α) (number : Nat) (element : α) : Option (ChainPool α) :=
  pool.update? number fun nodes chain => nodes.push chain element

/-- Puts an element at the end of a chain. -/
def pushBack? (pool : ChainPool α) (number : Nat) (element : α) : Option (ChainPool α) :=
  pool.update? number fun nodes chain => nodes.pushBack chain element

/-- Takes in a copy of a chain. -/
def copy? (pool : ChainPool α) (number : Nat) : Option (Nat × ChainPool α) :=
  (pool.chain? number).map pool.add

/-- Takes in the tail of a chain. -/
def tail? (pool : ChainPool α) (number : Nat) : Option (Nat × ChainPool α) :=
  (pool.chain? number).map fun chain => pool.add (pool.nodes.tail chain)

/-- Drops a chain and reclaims the nodes that only it reached. -/
def drop? (pool : ChainPool α) (number : Nat) : Option (ChainPool α) :=
  (pool.chain? number).map fun _ =>
    let chains := pool.chains.setIfInBounds number none
    ⟨pool.nodes.reclaim (chains.toList.filterMap id), chains⟩

end ChainPool

end Lox
