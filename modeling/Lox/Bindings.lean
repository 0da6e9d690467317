/-
# Bindings

A finite map from names to values, as a list of pairs in the order in which the names were first
bound.  `get?_insert` is the law of the map: a name has the value it was last bound to.
-/
namespace Lox

/-- A finite map from names. -/
structure Bindings (α : Type) where
  entries : List (String × α)

namespace Bindings

variable {α : Type}

/-- No name is bound. -/
def empty : Bindings α := ⟨[]⟩

instance : Inhabited (Bindings α) := ⟨empty⟩

/-- The value that a list of pairs holds first for a name. -/
def find? (name : String) : List (String × α) → Option α
  | [] => none
  | (bound, value) :: rest => if bound = name then some value else find? name rest

/-- Replaces the value of a name where it stands, or adds the name at the end. -/
def put (name : String) (value : α) : List (String × α) → List (String × α)
  | [] => [(name, value)]
  | (bound, old) :: rest =>
    if bound = name then (name, value) :: rest else (bound, old) :: put name value rest

/-- The value of a name, if it is bound. -/
def get? (bindings : Bindings α) (name : String) : Option α := find? name bindings.entries

/-- Whether a name is bound. -/
def contains (bindings : Bindings α) (name : String) : Bool := (bindings.get? name).isSome

/-- Binds a name, in place of any value that it had. -/
def insert (bindings : Bindings α) (name : String) (value : α) : Bindings α :=
  ⟨put name value bindings.entries⟩

/-- The bound names. -/
def names (bindings : Bindings α) : List String := bindings.entries.map Prod.fst

/-- The map of a list of pairs, of which the last one for a name counts. -/
def ofList (pairs : List (String × α)) : Bindings α :=
  pairs.foldl (fun bindings (name, value) => bindings.insert name value) empty

theorem find?_put (name other : String) (value : α) (entries : List (String × α)) :
    find? other (put name value entries) =
      if name = other then some value else find? other entries := by
  induction entries with
  | nil => rfl
  | cons entry rest ih =>
    obtain ⟨bound, old⟩ := entry
    by_cases hb : bound = name
    · subst hb
      by_cases ho : bound = other <;> simp [put, find?, ho]
    · by_cases ho : name = other
      · subst ho
        simp [put, find?, hb, ih]
      · simp [put, find?, hb, ih, ho]

@[simp] theorem get?_empty (name : String) : (empty : Bindings α).get? name = none := rfl

@[simp] theorem get?_insert (bindings : Bindings α) (name other : String) (value : α) :
    (bindings.insert name value).get? other =
      if name = other then some value else bindings.get? other :=
  find?_put name other value bindings.entries

end Bindings

end Lox
