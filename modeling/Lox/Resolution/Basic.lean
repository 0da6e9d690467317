/-
# Resolutions

Where the name at a node is bound: so many scopes out from the innermost one, or among the
globals.  A resolution files the number of hops of every local name under the id of its node;
ids that it does not hold are global.
-/
import Lox.Syntax.Basic
import Std.Data.TreeMap

namespace Lox

/-- Where a name is bound. -/
inductive Binding where
  | local (hops : Nat)
  | global
  deriving DecidableEq, Repr

/-- The hops of every node whose name is local. -/
structure Resolution where
  hops : Std.TreeMap Id Nat

namespace Resolution

/-- Every name is global. -/
def empty : Resolution := ⟨∅⟩

/-- Where the name at a node is bound. -/
def binding (resolution : Resolution) (id : Id) : Binding :=
  match resolution.hops[id]? with
  | some hops => .local hops
  | none => .global

/-- Files the hops of a node. -/
def insert (resolution : Resolution) (id : Id) (hops : Nat) : Resolution :=
  ⟨resolution.hops.insert id hops⟩

/-- The local nodes and their hops, in the order of the ids. -/
def toList (resolution : Resolution) : List (Id × Nat) := resolution.hops.toList

/-- The number of local nodes. -/
def size (resolution : Resolution) : Nat := resolution.hops.size

/-- Adds the resolution of a later program. -/
def absorb (resolution later : Resolution) : Resolution :=
  ⟨resolution.hops.insertMany later.toList⟩

end Resolution

end Lox
