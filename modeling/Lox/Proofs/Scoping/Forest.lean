/-
# Scopes as a forest

Scopes are made on their own or inside others, and are held under numbers; one scope may be held
under several.  Links lead from a scope to an older one (`Scopes.Ordered`), so they never come back,
and the scopes around a scope are a finite path (`Scopes.Path`).

A write changes what is read of one name in one scope, from wherever that scope is reached, and
nothing else: `scopes_read_what_was_written` says so after any operations on scopes.
-/
import Lox.Proofs.Scoping.Realize
import Mathlib.Data.List.Induction
import Mathlib.Logic.Relation

namespace Lox

variable {α : Type}

/-! ## 1. Links -/

namespace Scopes

/-- A scope lies directly in another one. -/
def LiesIn (scopes : Scopes α) (inner outer : ScopeId) : Prop :=
  scopes.enclosing? inner = some outer

/-- Scopes lie in older ones. -/
def Ordered (scopes : Scopes α) : Prop :=
  ∀ inner outer, scopes.LiesIn inner outer → outer < inner

/-- A scope and those around it, up to an outermost one. -/
inductive Path (scopes : Scopes α) : ScopeId → List ScopeId → Prop where
  | outermost {scope : ScopeId} (alone : scopes.enclosing? scope = none) : Path scopes scope [scope]
  | inside {inner outer : ScopeId} {path : List ScopeId} (link : scopes.LiesIn inner outer)
      (rest : Path scopes outer path) : Path scopes inner (inner :: path)

/-- A path has the scope at each number of links out, and ends where there are no more. -/
theorem Path.ancestor?_eq {scopes : Scopes α} {scope : ScopeId} {path : List ScopeId}
    (h : scopes.Path scope path) (hops : Nat) : scopes.ancestor? scope hops = path[hops]? := by
  induction h generalizing hops with
  | outermost alone => cases hops <;> simp [ancestor?, alone]
  | inside link rest ih =>
    cases hops with
    | zero => rfl
    | succ hops =>
      rw [ancestor?, show scopes.enclosing? _ = _ from link]
      exact ih hops

namespace Ordered

variable {scopes : Scopes α}

theorem empty : (empty : Scopes α).Ordered := fun _ _ link => nomatch link

/-- A new scope lies in one that is there, or in none. -/
theorem add (h : scopes.Ordered) {enclosing : Option ScopeId}
    (there : ∀ outer ∈ enclosing, outer < scopes.all.size) :
    (scopes.add enclosing).2.Ordered := by
  intro inner outer link
  rw [LiesIn, enclosing?_add] at link
  split at link
  · rename_i new
    exact new ▸ there outer link
  · exact h inner outer link

theorem define (h : scopes.Ordered) (id : ScopeId) (name : String) (value : α) :
    (scopes.define id name value).Ordered := by
  intro inner outer link
  rw [LiesIn, enclosing?_define] at link
  exact h inner outer link

theorem lt_of_transGen (h : scopes.Ordered) {inner outer : ScopeId}
    (way : Relation.TransGen scopes.LiesIn inner outer) : outer < inner := by
  induction way with
  | single link => exact h _ _ link
  | tail _ link ih => exact Nat.lt_trans (h _ _ link) ih

/-- **No scope lies in itself**, whether directly or through others. -/
theorem acyclic (h : scopes.Ordered) (scope : ScopeId) :
    ¬ Relation.TransGen scopes.LiesIn scope scope :=
  fun way => Nat.lt_irrefl _ (h.lt_of_transGen way)

/-- **Every scope has a path out.** -/
theorem exists_path (h : scopes.Ordered) (scope : ScopeId) : ∃ path, scopes.Path scope path := by
  induction scope using Nat.strongRecOn with
  | ind scope ih =>
    cases link : scopes.enclosing? scope with
    | none => exact ⟨_, .outermost link⟩
    | some outer =>
      obtain ⟨path, rest⟩ := ih outer (h _ _ link)
      exact ⟨_, .inside link rest⟩

/-- What is reached from a scope is no younger. -/
theorem le_of_ancestor? (h : scopes.Ordered) {hops : Nat} {inner outer : ScopeId}
    (reached : scopes.ancestor? inner hops = some outer) : outer ≤ inner := by
  induction hops generalizing inner with
  | zero => exact Nat.le_of_eq (Option.some.inj reached).symm
  | succ hops ih =>
    rw [ancestor?] at reached
    split at reached
    · rename_i link
      exact Nat.le_trans (ih reached) (Nat.le_of_lt (h _ _ link))
    · cases reached

end Ordered

/-! ## 2. Making scopes and writing to them -/

section Write

variable {scopes : Scopes α} {scope : ScopeId}

/-- A scope that is made later changes nothing about what lies around a scope. -/
theorem ancestor?_add (h : scopes.Ordered) (there : scope < scopes.all.size)
    (enclosing : Option ScopeId) (hops : Nat) :
    (scopes.add enclosing).2.ancestor? scope hops = scopes.ancestor? scope hops := by
  induction hops generalizing scope with
  | zero => rfl
  | succ hops ih =>
    rw [ancestor?, ancestor?, enclosing?_add, if_neg (Nat.ne_of_lt there)]
    cases link : scopes.enclosing? scope with
    | none => rfl
    | some outer => exact ih (Nat.lt_trans (h _ _ link) there)

theorem getAt?_add (h : scopes.Ordered) (there : scope < scopes.all.size)
    (enclosing : Option ScopeId) (hops : Nat) (name : String) :
    (scopes.add enclosing).2.getAt? scope hops name = scopes.getAt? scope hops name := by
  simp only [getAt?, ancestor?_add h there, get?_add]

/-- **A definition is read back where its scope is reached, and only there.** -/
theorem getAt?_define (h : scopes.Ordered) (there : scope < scopes.all.size) (target : ScopeId)
    (name : String) (value : α) (hops : Nat) (name' : String) :
    (scopes.define target name value).getAt? scope hops name' =
      if scopes.ancestor? scope hops = some target ∧ name = name' then some value
      else scopes.getAt? scope hops name' := by
  rw [getAt?, getAt?, ancestor?_define]
  cases reached : scopes.ancestor? scope hops with
  | none => simp
  | some other =>
    have below := Nat.lt_of_le_of_lt (h.le_of_ancestor? reached) there
    rw [Option.bind_some, Option.bind_some, get?_define]
    by_cases same : target = other
    · simp [same, below]
    · simp [same, Ne.symm same]

/-- An assignment succeeds where its scope binds the name, and is a definition then. -/
theorem assignAt?_eq_some {hops : Nat} {name : String} {value : α} {scopes' : Scopes α} :
    scopes.assignAt? scope hops name value = some scopes' ↔
      ∃ target, scopes.ancestor? scope hops = some target ∧ scopes.binds target name ∧
        scopes' = scopes.define target name value := by
  simp only [assignAt?, assign?, Option.bind_eq_some_iff, Option.ite_none_right_eq_some,
    Option.some.injEq, eq_comm (b := scopes')]

end Write

end Scopes

/-! ## 3. Operations -/

/-- What can be asked of scopes, which go by the numbers that they are held under. -/
inductive ScopeOp (α : Type) where
  | new
  | child (handle : Nat)
  | enclosing (handle : Nat)
  | define (handle : Nat) (name : String) (value : α)
  | assign (handle : Nat) (name : String) (value : α)
  | assignAt (handle hops : Nat) (name : String) (value : α)
  | get (handle : Nat) (name : String)
  | getAt (handle hops : Nat) (name : String)

/-- What an operation gives. -/
inductive ScopeAnswer (α : Type) where
  /-- The number of a scope that is now held. -/
  | held (handle : Nat)
  | value (value : α)
  | done
  | failed

/-- Scopes, and which of them are held under the numbers from 0 on. -/
structure ScopeForest (α : Type) where
  scopes : Scopes α
  handles : Array ScopeId

namespace ScopeForest

/-- The scope so many links out from one that is held. -/
def at? (forest : ScopeForest α) (handle hops : Nat) : Option ScopeId :=
  forest.handles[handle]?.bind (forest.scopes.ancestor? · hops)

/-- What a name stands for there. -/
def read? (forest : ScopeForest α) (handle hops : Nat) (name : String) : Option α :=
  forest.handles[handle]?.bind (forest.scopes.getAt? · hops name)

/-- Holds a scope under the next number. -/
def hold (forest : ScopeForest α) (scopes : Scopes α) (id : ScopeId) :
    ScopeAnswer α × ScopeForest α :=
  (.held forest.handles.size, ⟨scopes, forest.handles.push id⟩)

/-- What comes of a write. -/
def write (forest : ScopeForest α) : Option (Scopes α) → ScopeAnswer α × ScopeForest α
  | some scopes => (.done, { forest with scopes := scopes })
  | none => (.failed, forest)

/-- What comes of a read. -/
def found (forest : ScopeForest α) : Option α → ScopeAnswer α × ScopeForest α
  | some value => (.value value, forest)
  | none => (.failed, forest)

/-- Carries out an operation. -/
def carryOut (forest : ScopeForest α) : ScopeOp α → ScopeAnswer α × ScopeForest α
  | .new =>
    let (id, scopes) := forest.scopes.add none
    forest.hold scopes id
  | .child handle =>
    match forest.handles[handle]? with
    | some outer =>
      let (id, scopes) := forest.scopes.add (some outer)
      forest.hold scopes id
    | none => (.failed, forest)
  | .enclosing handle =>
    match forest.handles[handle]?.bind forest.scopes.enclosing? with
    | some outer => forest.hold forest.scopes outer
    | none => (.failed, forest)
  | .define handle name value =>
    forest.write (forest.handles[handle]?.map (forest.scopes.define · name value))
  | .assign handle name value =>
    forest.write (forest.handles[handle]?.bind (forest.scopes.assign? · name value))
  | .assignAt handle hops name value =>
    forest.write (forest.handles[handle]?.bind (forest.scopes.assignAt? · hops name value))
  | .get handle name =>
    forest.found (forest.handles[handle]?.bind (forest.scopes.get? · name))
  | .getAt handle hops name => forest.found (forest.read? handle hops name)

/-- The scopes after some operations, none being held at first. -/
def after (ops : List (ScopeOp α)) : ScopeForest α :=
  ops.foldl (fun forest op => (forest.carryOut op).2) ⟨.empty, #[]⟩

/-! ## 4. What operations keep -/

/-- Links lead to older scopes, and the scopes that are held are there. -/
structure Sound (forest : ScopeForest α) : Prop where
  ordered : forest.scopes.Ordered
  held : ∀ (handle : Nat) (scope : ScopeId), forest.handles[handle]? = some scope →
    scope < forest.scopes.all.size

namespace Sound

variable {forest : ScopeForest α}

/-- One more scope is held, after others may have been made. -/
theorem hold (h : forest.Sound) {scopes : Scopes α} {id : ScopeId} (ordered : scopes.Ordered)
    (size : forest.scopes.all.size ≤ scopes.all.size) (there : id < scopes.all.size) :
    (forest.hold scopes id).2.Sound := by
  refine ⟨ordered, fun handle scope found => ?_⟩
  simp only [ScopeForest.hold, Array.getElem?_push] at found
  split at found
  · cases found
    exact there
  · exact Nat.lt_of_lt_of_le (h.held handle scope found) size

/-- A write defines a name in a scope, if it does anything. -/
theorem write (h : forest.Sound) {found : Option (Scopes α)}
    (defines : ∀ scopes ∈ found, ∃ target name value,
      scopes = forest.scopes.define target name value) : (forest.write found).2.Sound := by
  cases found with
  | none => exact h
  | some scopes =>
    obtain ⟨target, name, value, rfl⟩ := defines scopes rfl
    refine ⟨h.ordered.define target name value, fun handle scope found => ?_⟩
    rw [ScopeForest.write, Scopes.size_define]
    exact h.held handle scope found

theorem add (h : forest.Sound) {enclosing : Option ScopeId}
    (there : ∀ outer ∈ enclosing, outer < forest.scopes.all.size) :
    (forest.hold (forest.scopes.add enclosing).2 (forest.scopes.add enclosing).1).2.Sound := by
  have size := Scopes.size_add forest.scopes enclosing
  refine h.hold (h.ordered.add there) (size ▸ Nat.le_succ _) ?_
  rw [size]
  exact Nat.lt_succ_self _

/-- **Every operation keeps scopes sound.** -/
theorem carryOut (h : forest.Sound) (op : ScopeOp α) : (forest.carryOut op).2.Sound := by
  have found : ∀ result, (forest.found result).2 = forest := fun result => by cases result <;> rfl
  cases op with
  | new => exact h.add nofun
  | child handle =>
    simp only [ScopeForest.carryOut]
    split
    · rename_i outer held
      exact h.add fun other mem => Option.some.inj mem ▸ h.held handle outer held
    · exact h
  | enclosing handle =>
    simp only [ScopeForest.carryOut]
    split
    · rename_i outer link
      obtain ⟨inner, held, link⟩ := Option.bind_eq_some_iff.1 link
      exact h.hold h.ordered (Nat.le_refl _)
        (Nat.lt_trans (h.ordered inner outer link) (h.held handle inner held))
    · exact h
  | define handle name value =>
    refine h.write fun scopes mem => ?_
    obtain ⟨target, -, rfl⟩ := Option.map_eq_some_iff.1 mem
    exact ⟨target, name, value, rfl⟩
  | assign handle name value =>
    refine h.write fun scopes mem => ?_
    obtain ⟨scope, -, assigned⟩ := Option.bind_eq_some_iff.1 mem
    have here : forest.scopes.assignAt? scope 0 name value = some scopes := assigned
    obtain ⟨target, -, -, rfl⟩ := Scopes.assignAt?_eq_some.1 here
    exact ⟨target, name, value, rfl⟩
  | assignAt handle hops name value =>
    refine h.write fun scopes mem => ?_
    obtain ⟨scope, -, assigned⟩ := Option.bind_eq_some_iff.1 mem
    obtain ⟨target, -, -, rfl⟩ := Scopes.assignAt?_eq_some.1 assigned
    exact ⟨target, name, value, rfl⟩
  | get handle name => exact (found _).symm ▸ h
  | getAt handle hops name => exact (found _).symm ▸ h

theorem after (ops : List (ScopeOp α)) : (ScopeForest.after ops).Sound := by
  unfold ScopeForest.after
  have start : (⟨.empty, #[]⟩ : ScopeForest α).Sound := ⟨.empty, nofun⟩
  induction ops using List.reverseRecOn with
  | nil => exact start
  | append_singleton ops op ih =>
    rw [List.foldl_append]
    exact ih.carryOut op

end Sound

section Reading

variable {forest : ScopeForest α} {handle hops : Nat} {name : String}

theorem read?_eq : forest.read? handle hops name =
    (forest.at? handle hops).bind (forest.scopes.get? · name) :=
  (Option.bind_assoc ..).symm

/-- After a definition, its name is read where its scope is reached, and all else as before. -/
theorem Sound.read?_define (h : forest.Sound) (target : ScopeId) (name : String) (value : α)
    (handle hops : Nat) (name' : String) :
    read? ⟨forest.scopes.define target name value, forest.handles⟩ handle hops name' =
      if forest.at? handle hops = some target ∧ name = name' then some value
      else forest.read? handle hops name' := by
  rw [read?, read?, at?]
  cases held : forest.handles[handle]? with
  | none => simp
  | some scope =>
    exact Scopes.getAt?_define h.ordered (h.held handle scope held) target name value hops name'

theorem at?_define (target : ScopeId) (name : String) (value : α) (handle hops : Nat) :
    at? ⟨forest.scopes.define target name value, forest.handles⟩ handle hops =
      forest.at? handle hops := by
  simp only [at?, Scopes.ancestor?_define]

/-- A scope is reached and read as before when others are made, and when more are held. -/
theorem Sound.read?_held (h : forest.Sound) {op : ScopeOp α} {number : Nat}
    (made : (forest.carryOut op).1 = .held number) {handle : Nat}
    (lt : handle < forest.handles.size) (hops : Nat) (name : String) :
    (forest.carryOut op).2.at? handle hops = forest.at? handle hops ∧
      (forest.carryOut op).2.read? handle hops name = forest.read? handle hops name := by
  have there := h.held handle _ (Array.getElem?_eq_getElem lt)
  -- it is held under the same number as before
  have still : ∀ id, (forest.handles.push id)[handle]? = forest.handles[handle]? := fun id => by
    rw [Array.getElem?_push, if_neg (Nat.ne_of_lt lt)]
  have added : ∀ enclosing, let later := (forest.hold (forest.scopes.add enclosing).2
      (forest.scopes.add enclosing).1).2
      later.at? handle hops = forest.at? handle hops ∧
        later.read? handle hops name = forest.read? handle hops name := by
    intro enclosing
    simp only [ScopeForest.hold, at?, read?, still, Array.getElem?_eq_getElem lt, Option.bind_some]
    exact ⟨Scopes.ancestor?_add h.ordered there enclosing hops,
      Scopes.getAt?_add h.ordered there enclosing hops name⟩
  cases op with
  | new => exact added none
  | child other =>
    simp only [ScopeForest.carryOut] at made ⊢
    split
    · exact added _
    · exact ⟨rfl, rfl⟩
  | enclosing other =>
    simp only [ScopeForest.carryOut] at made ⊢
    split
    · simp only [ScopeForest.hold, at?, read?, still, and_self]
    · exact ⟨rfl, rfl⟩
  | define | assign | assignAt =>
    simp only [ScopeForest.carryOut, ScopeForest.write] at made
    split at made <;> cases made
  | get | getAt =>
    simp only [ScopeForest.carryOut, ScopeForest.found] at made
    split at made <;> cases made

/-- An assignment is done if the scope that it means binds the name, and else it fails. -/
theorem carryOut_assignAt (forest : ScopeForest α) (handle hops : Nat) (name : String)
    (value : α) :
    (∃ target, forest.at? handle hops = some target ∧ forest.scopes.binds target name ∧
      forest.carryOut (.assignAt handle hops name value) =
        (.done, ⟨forest.scopes.define target name value, forest.handles⟩)) ∨
    (¬ ∃ target, forest.at? handle hops = some target ∧ forest.scopes.binds target name) ∧
      forest.carryOut (.assignAt handle hops name value) = (.failed, forest) := by
  have meant : forest.handles[handle]?.bind (forest.scopes.assignAt? · hops name value) =
      (forest.at? handle hops).bind (forest.scopes.assign? · name value) :=
    (Option.bind_assoc ..).symm
  rw [carryOut, meant]
  cases reached : forest.at? handle hops with
  | none => exact .inr ⟨by simp, rfl⟩
  | some target =>
    by_cases bound : forest.scopes.binds target name
    · exact .inl ⟨target, rfl, bound, by simp [Scopes.assign?, bound, write]⟩
    · exact .inr ⟨by simp [bound], by simp [Scopes.assign?, bound, write]⟩

/-- A failure changes nothing. -/
theorem carryOut_failed {op : ScopeOp α} (failed : (forest.carryOut op).1 = .failed) :
    (forest.carryOut op).2 = forest := by
  cases op with
  | new => cases failed
  | child | enclosing =>
    simp only [carryOut] at failed ⊢
    split <;> simp_all [hold]
  | define | assign | assignAt =>
    simp only [carryOut, write] at failed ⊢
    split <;> simp_all
  | get | getAt =>
    simp only [carryOut, found]
    split <;> rfl

end Reading

end ScopeForest

open ScopeForest in
/-- **A scope is read as it was last written.**  After any operations on scopes:

* No scope lies in itself.  The scopes around one that is held are a finite path.
* An assignment is done exactly if there are so many links and the scope there binds the name.
  Then the name is read as the new value wherever that scope is reached, under whatever number and
  over however many links, and all else is read as before.  Links stay what they are.
* So it is with a definition, which is always done.
* A read gives what the name stands for, if anything, and changes nothing.
* An operation that fails changes nothing.
* Making a scope, or holding one under another number, changes no read of what was held before. -/
theorem scopes_read_what_was_written (ops : List (ScopeOp α)) :
    let forest := ScopeForest.after ops
    (∀ scope, ¬ Relation.TransGen forest.scopes.LiesIn scope scope) ∧
    (∀ handle < forest.handles.size, ∃ scope path, forest.handles[handle]? = some scope ∧
      forest.scopes.Path scope path ∧ ∀ hops, forest.at? handle hops = path[hops]?) ∧
    (∀ handle hops name value,
      let later := forest.carryOut (.assignAt handle hops name value)
      forest.carryOut (.assign handle name value) =
        forest.carryOut (.assignAt handle 0 name value) ∧
      (later.1 = .done ↔
        ∃ target, forest.at? handle hops = some target ∧ forest.scopes.binds target name) ∧
      (later.1 = .done → ∀ other hops' name',
        later.2.at? other hops' = forest.at? other hops' ∧
        later.2.read? other hops' name' =
          if forest.at? other hops' = forest.at? handle hops ∧ name = name' then some value
          else forest.read? other hops' name')) ∧
    (∀ handle < forest.handles.size, ∀ name value,
      let later := forest.carryOut (.define handle name value)
      later.1 = .done ∧ ∀ other hops' name',
        later.2.at? other hops' = forest.at? other hops' ∧
        later.2.read? other hops' name' =
          if forest.at? other hops' = forest.at? handle 0 ∧ name = name' then some value
          else forest.read? other hops' name') ∧
    (∀ handle hops name,
      forest.carryOut (.get handle name) = forest.carryOut (.getAt handle 0 name) ∧
      forest.carryOut (.getAt handle hops name) =
        (((forest.at? handle hops).bind (forest.scopes.get? · name)).elim .failed .value,
          forest)) ∧
    (∀ op, (forest.carryOut op).1 = .failed → (forest.carryOut op).2 = forest) ∧
    ∀ op number, (forest.carryOut op).1 = .held number → ∀ handle < forest.handles.size,
      ∀ hops name, (forest.carryOut op).2.at? handle hops = forest.at? handle hops ∧
        (forest.carryOut op).2.read? handle hops name = forest.read? handle hops name := by
  intro forest
  have sound : forest.Sound := .after ops
  refine ⟨sound.ordered.acyclic, fun handle lt => ?_, fun handle hops name value => ?_,
    fun handle lt name value => ?_, fun handle hops name => ⟨rfl, ?_⟩,
    fun op failed => carryOut_failed failed,
    fun op number made handle lt hops name => sound.read?_held made lt hops name⟩
  · obtain ⟨path, way⟩ := sound.ordered.exists_path forest.handles[handle]
    refine ⟨_, path, Array.getElem?_eq_getElem lt, way, fun hops => ?_⟩
    rw [at?, Array.getElem?_eq_getElem lt]
    exact way.ancestor?_eq hops
  · refine ⟨rfl, ?_⟩
    rcases forest.carryOut_assignAt handle hops name value with
      ⟨target, reached, bound, done⟩ | ⟨unbound, failed⟩
    · rw [done, reached]
      exact ⟨⟨fun _ => ⟨target, rfl, bound⟩, fun _ => rfl⟩, fun _ other hops' name' =>
        ⟨at?_define target name value other hops',
          sound.read?_define target name value other hops' name'⟩⟩
    · rw [failed]
      exact ⟨⟨nofun, fun bound => absurd bound unbound⟩, nofun⟩
  · have held := Array.getElem?_eq_getElem lt
    have here : forest.at? handle 0 = some forest.handles[handle] := by
      rw [at?, held]
      rfl
    rw [carryOut, held, here]
    exact ⟨rfl, fun other hops' name' => ⟨at?_define _ name value other hops',
      sound.read?_define _ name value other hops' name'⟩⟩
  · rw [carryOut, read?_eq]
    cases (forest.at? handle hops).bind (forest.scopes.get? · name) <;> rfl

end Lox
