/-
# Scopes

A scope binds names and may have an enclosing scope.  Scopes are shared: whoever holds the
identity of a scope sees every later definition and assignment in it.  So all scopes live in one
store, `Scopes`, and are referred to by `ScopeId`.  A scope encloses only scopes made after it.

A name is looked up in one scope only, which is either given or found by following a number of
enclosing links (`ancestor?`); there is no search.  A definition changes what is read of its name
in its scope, and nothing else (`get?_define`, `ancestor?_define`).
-/
import Lox.Bindings
import Lox.Text.Quoted

namespace Lox

/-- The identity of a scope. -/
abbrev ScopeId := Nat

/-- A scope: what it binds, and what it lies in. -/
structure Scope (α : Type) where
  bindings : Bindings α
  enclosing : Option ScopeId

/-- The scopes made so far. -/
structure Scopes (α : Type) where
  all : Array (Scope α)

namespace Scopes

variable {α : Type}

/-- No scopes. -/
def empty : Scopes α := ⟨#[]⟩

/-- Makes a scope that binds nothing. -/
def add (scopes : Scopes α) (enclosing : Option ScopeId) : ScopeId × Scopes α :=
  (scopes.all.size, ⟨scopes.all.push ⟨.empty, enclosing⟩⟩)

/-- The scope that encloses a scope. -/
def enclosing? (scopes : Scopes α) (id : ScopeId) : Option ScopeId :=
  scopes.all[id]?.bind Scope.enclosing

/-- The value of a name in a scope. -/
def get? (scopes : Scopes α) (id : ScopeId) (name : String) : Option α :=
  scopes.all[id]?.bind (·.bindings.get? name)

/-- Binds a name in a scope, whether or not it is bound there. -/
def define (scopes : Scopes α) (id : ScopeId) (name : String) (value : α) : Scopes α :=
  ⟨scopes.all.modify id fun scope =>
    { scope with bindings := scope.bindings.insert name value }⟩

/-- Whether a scope binds a name. -/
def binds (scopes : Scopes α) (id : ScopeId) (name : String) : Bool :=
  (scopes.get? id name).isSome

/-- Gives a name that a scope binds another value. -/
def assign? (scopes : Scopes α) (id : ScopeId) (name : String) (value : α) :
    Option (Scopes α) :=
  if scopes.binds id name then some (scopes.define id name value) else none

/-- The scope that lies a number of enclosing links out. -/
def ancestor? (scopes : Scopes α) (id : ScopeId) : (hops : Nat) → Option ScopeId
  | 0 => some id
  | hops + 1 =>
    match scopes.enclosing? id with
    | some outer => scopes.ancestor? outer hops
    | none => none

/-- The value of a name in the scope a number of links out. -/
def getAt? (scopes : Scopes α) (id : ScopeId) (hops : Nat) (name : String) : Option α :=
  (scopes.ancestor? id hops).bind (scopes.get? · name)

/-- Gives a name that is bound in the scope a number of links out another value. -/
def assignAt? (scopes : Scopes α) (id : ScopeId) (hops : Nat) (name : String) (value : α) :
    Option (Scopes α) :=
  (scopes.ancestor? id hops).bind (scopes.assign? · name value)

/-- The names that a scope binds, in order. -/
def names (scopes : Scopes α) (id : ScopeId) : List String :=
  match scopes.all[id]? with
  | some scope => scope.bindings.names.mergeSort
  | none => []

/-- A listing of a scope: its names, and whether it lies in another scope. -/
def listing (scopes : Scopes α) (id : ScopeId) : String :=
  let names := ", ".intercalate ((scopes.names id).map Text.quoted)
  let enclosed := if (scopes.enclosing? id).isSome then "true" else "false"
  "Environment \x7b names: [" ++ names ++ "], has_enclosing: " ++ enclosed ++ " \x7d"

/-! ## The number of scopes -/

theorem size_add (scopes : Scopes α) (enclosing : Option ScopeId) :
    (scopes.add enclosing).2.all.size = scopes.all.size + 1 :=
  Array.size_push _

@[simp] theorem size_define (scopes : Scopes α) (id : ScopeId) (name : String) (value : α) :
    (scopes.define id name value).all.size = scopes.all.size :=
  Array.size_modify

/-! ## Reading after a definition -/

@[simp] theorem enclosing?_define (scopes : Scopes α) (id : ScopeId) (name : String) (value : α)
    (other : ScopeId) :
    (scopes.define id name value).enclosing? other = scopes.enclosing? other := by
  simp only [enclosing?, define, Array.getElem?_modify]
  split
  · cases scopes.all[other]? <;> rfl
  · rfl

theorem get?_define (scopes : Scopes α) (id : ScopeId) (name : String) (value : α)
    (other : ScopeId) (name' : String) :
    (scopes.define id name value).get? other name' =
      if id = other ∧ name = name' ∧ other < scopes.all.size then some value
      else scopes.get? other name' := by
  simp only [get?, define, Array.getElem?_modify]
  by_cases h : id = other
  · subst h
    by_cases hlt : id < scopes.all.size
    · by_cases hn : name = name' <;> simp [hlt, hn]
    · simp [hlt]
  · simp [h]

@[simp] theorem ancestor?_define (scopes : Scopes α) (id : ScopeId) (name : String) (value : α)
    (other : ScopeId) (hops : Nat) :
    (scopes.define id name value).ancestor? other hops = scopes.ancestor? other hops := by
  induction hops generalizing other with
  | zero => rfl
  | succ hops ih =>
    simp only [ancestor?, enclosing?_define]
    cases scopes.enclosing? other with
    | none => rfl
    | some outer => exact ih outer

end Scopes

/-- The message for a name that is not bound where it is looked up. -/
def undefinedVariable (name : String) : String := "Undefined variable '" ++ name ++ "'."

end Lox
