/-
# Scopes without those of bare blocks

While a program runs, and next to it the same program with bare blocks that open no scope, most of
the scopes that the first run makes have an image in the second one; the image of a scope of a bare
block is that of the scope around it.  `Images` records for every scope its image, and which of the
scopes around it are those of bare blocks.

An evaluation is followed by another one (`Erasure.Follows`) if from states that are kin they end in
the same way, in states that are kin with more images.  Both are then in the scopes in which they
began.
-/
import Lox.Proofs.Eval.Direct
import Lox.Proofs.Eval.Renaming
import Lox.Proofs.Scoping.Realize

namespace Lox

open Bareness (inwards)

variable {b : Bareness}

/-! ## 1. Names

The same node has a number of links in both resolutions, and the second leaves out the links of bare
blocks in between. -/

/-- The resolutions of the programs of a session, with the scopes of bare blocks and without
them. -/
structure Erasure (b : Bareness) where
  full : Resolution
  direct : Resolution
  /-- The ids of the programs are below this one. -/
  bound : Id

namespace Erasure

variable (x : Erasure b)

/-- The name at a node in scopes with some marks is bound in a scope that has an image, and without
the scopes of bare blocks in this image. -/
def Moves (marks : List Bool) (id : Id) : Prop :=
  match x.full.binding id with
  | .local hops => marks[hops]? = some false ∧ x.direct.binding id = .local (inwards marks hops)
  | .global => x.direct.binding id = .global

/-- What the two resolutions have to say about an occurrence. -/
structure Shifts (o : Occurrence) : Prop where
  outside : o.role = .declares → ¬ b.InBare o.scopes
  known : ∀ id, o.role.id? = some id → id < x.bound ∧ x.Moves (b.marks o.scopes) id
  /-- The receiver stands one scope nearer than `super`. -/
  receiver : ∀ id inner, o.role = .super id → o.name = "super" →
    x.full.binding id = .local (inner + 1) → (b.marks o.scopes)[inner]? = some false

/-- Later on there are more programs. -/
structure Before (x x' : Erasure b) : Prop where
  bound : x.bound ≤ x'.bound
  full : ∀ id < x.bound, x'.full.binding id = x.full.binding id
  direct : ∀ id < x.bound, x'.direct.binding id = x.direct.binding id

variable {x} {x' : Erasure b} {o : Occurrence}

/-- Programs that come later have nodes of their own. -/
theorem Shifts.later (h : x.Shifts o) (before : x.Before x') : x'.Shifts o where
  outside := h.outside
  known id node := by
    obtain ⟨lt, moves⟩ := h.known id node
    refine ⟨Nat.lt_of_lt_of_le lt before.bound, ?_⟩
    unfold Moves at moves ⊢
    rwa [before.full id lt, before.direct id lt]
  receiver id inner role name found := by
    have lt := (h.known id (by rw [role]; rfl)).1
    exact h.receiver id inner role name (before.full id lt ▸ found)

/-- What the two resolutions have to say about the occurrences in some code. -/
def Fits (x : Erasure b) (os : List Occurrence) : Prop := ∀ o ∈ os, x.Shifts o

theorem Fits.later {os : List Occurrence} (h : x.Fits os) (before : x.Before x') : x'.Fits os :=
  fun o mem => (h o mem).later before

/-- Code fits if each occurrence in it does. -/
@[simp] theorem fits_cons {os : List Occurrence} : x.Fits (o :: os) ↔ x.Shifts o ∧ x.Fits os :=
  List.forall_mem_cons

@[simp] theorem fits_append {os os' : List Occurrence} :
    x.Fits (os ++ os') ↔ x.Fits os ∧ x.Fits os' :=
  List.forall_mem_append

end Erasure

/-! ## 2. Images and closures

A closure keeps a scope, and its counterpart the image of that scope. -/

/-- What a scope becomes: its image, and which of the scopes from it outwards are those of bare
blocks.  The globals are in no local scope. -/
structure Image where
  scope : ScopeId
  marks : List Bool

/-- The scope is not that of a bare block, so the image is its own. -/
def Image.Kept (image : Image) : Prop := image.marks.head? ≠ some true

theorem Image.kept_outermost (scope : ScopeId) : Image.Kept ⟨scope, []⟩ := by
  simp [Kept]

theorem Image.kept_false (scope : ScopeId) (marks : List Bool) :
    Image.Kept ⟨scope, false :: marks⟩ := by
  simp [Kept]

/-- The images of the scopes made so far. -/
abbrev Images := List Image

/-- A scope that has an image keeps it. -/
theorem Images.mono {w w' : Images} (le : w <+: w') {scope : ScopeId} {image : Image}
    (here : w[scope]? = some image) : w'[scope]? = some image := by
  obtain ⟨added, rfl⟩ := le
  obtain ⟨lt, -⟩ := List.getElem?_eq_some_iff.1 here
  rw [List.getElem?_append_left lt, here]

/-- A closure and what becomes of it.  `inner` are the marks of scopes that its calls lie in,
besides those around the scope that it has been made in. -/
structure Closure.Erased (x : Erasure b) (w : Images) (inner : List Bool) (c c' : Closure) :
    Prop where
  stamp : c.stamp = c'.stamp
  declaration : c.declaration = c'.declaration
  isInitializer : c.isInitializer = c'.isInitializer
  around : ∃ marks stack, w[c.scope]? = some ⟨c'.scope, marks⟩ ∧ b.marks stack = inner ++ marks ∧
    x.Fits (Occurrence.ofFunction stack c.declaration)
  /-- The receiver of an initializer stands in a scope that has an image of its own. -/
  receiver : c.isInitializer = true → ∀ image, w[c.scope]? = some image →
    (inner ++ image.marks).head? ≠ some true

namespace Closure.Erased

variable {x x' : Erasure b} {w w' : Images} {inner : List Bool} {c c' : Closure}

/-- A closure cannot be told from what becomes of it without calling it. -/
theorem twin (h : c.Erased x w inner c') : c.Twin c' :=
  ⟨h.stamp, congrArg (·.name.text) h.declaration, congrArg (·.params.length) h.declaration⟩

/-- More images do not change what becomes of a closure. -/
theorem mono (le : w <+: w') (h : c.Erased x w inner c') : c.Erased x w' inner c' := by
  obtain ⟨marks, stack, here, around⟩ := h.around
  refine { h with around := ⟨marks, stack, Images.mono le here, around⟩, receiver := ?_ }
  intro isInitializer image there
  cases (Images.mono le here).symm.trans there
  exact h.receiver isInitializer _ here

/-- Nor do more programs. -/
theorem later (h : c.Erased x w inner c') (before : x.Before x') : c.Erased x' w inner c' := by
  obtain ⟨marks, stack, here, around, fits⟩ := h.around
  exact { h with around := ⟨marks, stack, here, around, fits.later before⟩ }

end Closure.Erased

namespace Erasure

/-- What may stand for what, given the images.  The calls of a method that is not bound yet will lie
in the scope of `this`, which is not that of a block. -/
def kinship (x : Erasure b) (w : Images) : Kinship where
  closures := Closure.Erased x w []
  methods := Closure.Erased x w [false]
  twin := Closure.Erased.twin
  twin_method := Closure.Erased.twin

/-- Values that are kin. -/
abbrev values (x : Erasure b) (w : Images) : Value → Value → Prop := Value.Kin (x.kinship w)

variable {x x' : Erasure b} {w w' : Images}

theorem le_kinship (le : w <+: w') : (x.kinship w).Le (x.kinship w') :=
  ⟨fun _ _ closure => closure.mono le, fun _ _ closure => closure.mono le⟩

theorem kinship_later (before : x.Before x') : (x.kinship w).Le (x'.kinship w) :=
  ⟨fun _ _ closure => closure.later before, fun _ _ closure => closure.later before⟩

/-- Values that are kin stay so when there are more images. -/
theorem values_mono (le : w <+: w') {v v' : Value} (h : x.values w v v') : x.values w' v v' :=
  h.mono (le_kinship le)

theorem values_mono_all (le : w <+: w') {vs vs' : List Value}
    (h : List.Forall₂ (x.values w) vs vs') : List.Forall₂ (x.values w') vs vs' :=
  h.imp fun _ _ value => values_mono le value

end Erasure

/-! ## 3. Scopes

Links are kept up to those of bare blocks.  A scope that is not that of a bare block binds what its
image binds. -/

/-- The scopes made so far and what becomes of them. -/
structure Scopes.Erased (x : Erasure b) (w : Images) (s s' : Scopes Value) : Prop where
  size : s.all.size = w.length
  globals : w[globalScope]? = some ⟨globalScope, []⟩
  made : ∀ (i : ScopeId) (image : Image), w[i]? = some image → image.scope < s'.all.size
  /-- A scope of a bare block lies in one with the same image, and the images of the others lie in
  each other as the scopes do. -/
  link : ∀ (i j : ScopeId) (mark : Bool) (marks : List Bool), w[i]? = some ⟨j, mark :: marks⟩ →
    ∃ outer image, s.enclosing? i = some outer ∧ w[outer]? = some ⟨image, marks⟩ ∧
      if mark then image = j else s'.enclosing? j = some image
  binds : ∀ (i : ScopeId) (image : Image), w[i]? = some image → image.Kept → ∀ name,
    Option.Rel (x.values w) (s.get? i name) (s'.get? image.scope name)
  apart : ∀ (i i' : ScopeId) (image image' : Image), w[i]? = some image → w[i']? = some image' →
    image.Kept → image'.Kept → image.scope = image'.scope → i = i'

namespace Scopes.Erased

variable {x : Erasure b} {w : Images} {s s' : Scopes Value} {i : ScopeId} {image : Image}

/-- So many links out there is a scope, and without the scopes of bare blocks its image. -/
theorem ancestor? (h : s.Erased x w s') (here : w[i]? = some image) {hops : Nat}
    (le : hops ≤ image.marks.length) : ∃ outer j, s.ancestor? i hops = some outer ∧
      s'.ancestor? image.scope (inwards image.marks hops) = some j ∧
      w[outer]? = some ⟨j, image.marks.drop hops⟩ := by
  induction hops generalizing i image with
  | zero => exact ⟨i, image.scope, rfl, rfl, here⟩
  | succ hops ih =>
    obtain ⟨j, _ | ⟨mark, marks⟩⟩ := image
    · cases le
    obtain ⟨outer, next, up, there, up'⟩ := h.link i j mark marks here
    obtain ⟨target, k, found, found', further⟩ := ih there (Nat.le_of_succ_le_succ le)
    refine ⟨target, k, ?_, ?_, further⟩
    · rw [Scopes.ancestor?, up]
      exact found
    · cases mark with
      | true =>
        have same : inwards (true :: marks) (hops + 1) = inwards marks hops := by simp [inwards]
        rw [same]
        simp only [if_true] at up'
        exact up' ▸ found'
      | false =>
        have more : inwards (false :: marks) (hops + 1) = inwards marks hops + 1 := by
          simp [inwards]
        simp only [Bool.false_eq_true, if_false] at up'
        rw [more, Scopes.ancestor?, up']
        exact found'

/-- The scope that is not that of a bare block has an image of its own. -/
theorem ancestor?_kept (h : s.Erased x w s') (here : w[i]? = some image) {hops : Nat}
    (kept : image.marks[hops]? = some false) : ∃ outer image', s.ancestor? i hops = some outer ∧
      s'.ancestor? image.scope (inwards image.marks hops) = some image'.scope ∧
      w[outer]? = some image' ∧ image'.Kept := by
  obtain ⟨lt, -⟩ := List.getElem?_eq_some_iff.1 kept
  obtain ⟨outer, j, found, found', there⟩ := h.ancestor? here (Nat.le_of_lt lt)
  refine ⟨outer, _, found, found', there, ?_⟩
  unfold Image.Kept
  rw [List.head?_drop, kept]
  exact fun same => by cases same

/-- The name at a node is looked up in a scope and in its image. -/
theorem holder (h : s.Erased x w s') (here : w[i]? = some image) {id : Id}
    (moves : x.Moves image.marks id) : ∃ outer image', x.full.holder id s i = some outer ∧
      x.direct.holder id s' image.scope = some image'.scope ∧ w[outer]? = some image' ∧
      image'.Kept := by
  unfold Erasure.Moves at moves
  unfold Resolution.holder
  cases found : x.full.binding id with
  | «local» hops =>
    rw [found] at moves
    rw [moves.2]
    exact h.ancestor?_kept here moves.1
  | global =>
    rw [found] at moves
    dsimp only at moves
    rw [moves]
    exact ⟨_, _, rfl, rfl, h.globals, Image.kept_outermost _⟩

/-- A name that is found over so many links is found over fewer, those of bare blocks left out. -/
theorem getAt? (h : s.Erased x w s') (here : w[i]? = some image) {hops : Nat}
    (kept : image.marks[hops]? = some false) (name : String) :
    Option.Rel (x.values w) (s.getAt? i hops name)
      (s'.getAt? image.scope (inwards image.marks hops) name) := by
  obtain ⟨outer, image', found, found', there, kept'⟩ := h.ancestor?_kept here kept
  unfold Scopes.getAt?
  rw [found, found']
  exact h.binds outer image' there kept' name

/-- A definition in a scope, and one in its image. -/
theorem define (h : s.Erased x w s') (here : w[i]? = some image) (kept : image.Kept) (name : String)
    {v v' : Value} (value : x.values w v v') :
    (s.define i name v).Erased x w (s'.define image.scope name v') where
  size := (Scopes.size_define ..).trans h.size
  globals := h.globals
  made j other there := by
    rw [Scopes.size_define]
    exact h.made j other there
  link j k mark marks there := by
    rw [Scopes.enclosing?_define]
    obtain ⟨outer, next, up⟩ := h.link j k mark marks there
    refine ⟨outer, next, ?_⟩
    rwa [Scopes.enclosing?_define]
  binds j other there kept' name' := by
    obtain ⟨lt, -⟩ := List.getElem?_eq_some_iff.1 there
    have same : i = j ↔ image.scope = other.scope :=
      ⟨fun eq => by
        subst eq
        cases here.symm.trans there
        rfl, h.apart i j image other here there kept kept'⟩
    rw [Scopes.get?_define, Scopes.get?_define, h.size]
    by_cases hit : i = j ∧ name = name'
    · rw [if_pos ⟨hit.1, hit.2, lt⟩, if_pos ⟨same.1 hit.1, hit.2, h.made j other there⟩]
      exact .some value
    · rw [if_neg fun both => hit ⟨both.1, both.2.1⟩,
        if_neg fun both => hit ⟨same.2 both.1, both.2.1⟩]
      exact h.binds j other there kept' name'
  apart := h.apart

/-- What is known of the scopes made so far stays true when a scope is added. -/
theorem mono_binds (h : s.Erased x w s') {w' : Images} (le : w <+: w') (here : w[i]? = some image)
    (kept : image.Kept) (name : String) :
    Option.Rel (x.values w') (s.get? i name) (s'.get? image.scope name) :=
  rel_imp (h.binds i image here kept name) fun _ _ value => Erasure.values_mono le value

/-- The scopes of the images and one more. -/
theorem image_cases {j : ScopeId} {new other : Image} (there : (w ++ [new])[j]? = some other) :
    w[j]? = some other ∧ j < w.length ∨ j = w.length ∧ other = new := by
  obtain lt | rfl | gt := Nat.lt_trichotomy j w.length
  · rw [List.getElem?_append_left lt] at there
    exact .inl ⟨there, lt⟩
  · rw [List.getElem?_concat_length] at there
    exact .inr ⟨rfl, (Option.some.inj there).symm⟩
  · rw [List.getElem?_eq_none (by simpa using gt)] at there
    cases there

/-- A scope that has an image of its own. -/
theorem add (h : s.Erased x w s') (here : w[i]? = some image) :
    (s.add (some i)).2.Erased x (w ++ [⟨s'.all.size, false :: image.marks⟩])
      (s'.add (some image.scope)).2 := by
  have le : w <+: w ++ [⟨s'.all.size, false :: image.marks⟩] := List.prefix_append _ _
  refine ⟨?_, Images.mono le h.globals, fun j other there => ?_, fun j k mark marks there => ?_,
    fun j other there kept name => ?_, fun j j' other other' there there' kept kept' same => ?_⟩
  · rw [Scopes.size_add, h.size, List.length_append, List.length_singleton]
  · rw [Scopes.size_add]
    rcases image_cases there with ⟨old, -⟩ | ⟨-, rfl⟩
    · exact Nat.lt_succ_of_lt (h.made j other old)
    · exact Nat.lt_succ_self _
  · rw [Scopes.enclosing?_add]
    rcases image_cases there with ⟨old, lt⟩ | ⟨rfl, new⟩
    · obtain ⟨outer, next, up, around, up'⟩ := h.link j k mark marks old
      rw [if_neg (Nat.ne_of_lt (h.size ▸ lt))]
      refine ⟨outer, next, up, Images.mono le around, ?_⟩
      rwa [Scopes.enclosing?_add, if_neg (Nat.ne_of_lt (h.made j _ old))]
    · cases new
      rw [if_pos h.size.symm]
      refine ⟨i, image.scope, rfl, Images.mono le here, ?_⟩
      rw [Scopes.enclosing?_add, if_pos rfl]
      rfl
  · rw [Scopes.get?_add, Scopes.get?_add]
    rcases image_cases there with ⟨old, -⟩ | ⟨rfl, rfl⟩
    · exact h.mono_binds le old kept name
    · have nothing : s.get? w.length name = none := by
        rw [Scopes.get?, Array.getElem?_eq_none (Nat.le_of_eq h.size), Option.bind_none]
      have nothing' : s'.get? s'.all.size name = none := by
        rw [Scopes.get?, Array.getElem?_eq_none (Nat.le_refl _), Option.bind_none]
      rw [nothing, nothing']
      exact .none
  · rcases image_cases there with ⟨old, -⟩ | ⟨rfl, rfl⟩ <;>
      rcases image_cases there' with ⟨old', -⟩ | ⟨rfl, rfl⟩
    · exact h.apart j j' other other' old old' kept kept' same
    · exact absurd same (Nat.ne_of_lt (h.made j other old))
    · exact absurd same.symm (Nat.ne_of_lt (h.made j' other' old'))
    · rfl

/-- The scope of a bare block, which has the image of the scope around it. -/
theorem addBare (h : s.Erased x w s') (here : w[i]? = some image) :
    (s.add (some i)).2.Erased x (w ++ [⟨image.scope, true :: image.marks⟩]) s' := by
  have le : w <+: w ++ [⟨image.scope, true :: image.marks⟩] := List.prefix_append _ _
  have old_of_kept : ∀ {j : ScopeId} {other : Image},
      (w ++ [⟨image.scope, true :: image.marks⟩])[j]? = some other → other.Kept →
        w[j]? = some other := by
    intro j other there kept
    rcases image_cases there with ⟨old, -⟩ | ⟨-, rfl⟩
    · exact old
    · exact absurd rfl kept
  refine ⟨?_, Images.mono le h.globals, fun j other there => ?_, fun j k mark marks there => ?_,
    fun j other there kept name => ?_, fun j j' other other' there there' kept kept' same => ?_⟩
  · rw [Scopes.size_add, h.size, List.length_append, List.length_singleton]
  · rcases image_cases there with ⟨old, -⟩ | ⟨-, rfl⟩
    · exact h.made j other old
    · exact h.made i image here
  · rw [Scopes.enclosing?_add]
    rcases image_cases there with ⟨old, lt⟩ | ⟨rfl, new⟩
    · obtain ⟨outer, next, up, around, up'⟩ := h.link j k mark marks old
      rw [if_neg (Nat.ne_of_lt (h.size ▸ lt))]
      exact ⟨outer, next, up, Images.mono le around, up'⟩
    · cases new
      rw [if_pos h.size.symm]
      exact ⟨i, image.scope, rfl, Images.mono le here, rfl⟩
  · rw [Scopes.get?_add]
    exact h.mono_binds le (old_of_kept there kept) kept name
  · exact h.apart j j' other other' (old_of_kept there kept) (old_of_kept there' kept') kept kept'
      same

end Scopes.Erased

/-! ## 4. States

States are compared on a footing: the scope in which the evaluation is, and its image. -/

/-- Where two evaluations stand: in a scope, and in its image. -/
structure Footing where
  scope : ScopeId
  image : Image

/-- Where variables are found on a footing, and where they are without the scopes of bare blocks. -/
structure Environment.Erased (x : Erasure b) (w : Images) (foot : Footing)
    (env env' : Environment) : Prop where
  scopes : env.scopes.Erased x w env'.scopes
  scope : env.scope = foot.scope
  image : env'.scope = foot.image.scope
  here : w[foot.scope]? = some foot.image
  full : env.resolution = x.full
  direct : env'.resolution = x.direct

/-- What may stand for what while code is evaluated on a footing. -/
abbrev Erasure.run (x : Erasure b) (w : Images) (foot : Footing) : RunKinship where
  toKinship := x.kinship w
  environments := Environment.Erased x w foot
  lines := Eq
  causes := Eq
  same_cause _ := rfl

section States

variable {x : Erasure b} {w w' : Images} {foot foot' : Footing} {s s' : State}

/-- What kinship says of two states: their scopes, where they are, and the two resolutions. -/
theorem State.Kin.erased (h : s.Kin (x.run w foot) s') :
    s.scopes.Erased x w s'.scopes ∧ s.scope = foot.scope ∧ s'.scope = foot.image.scope ∧
      w[foot.scope]? = some foot.image ∧ s.resolution = x.full ∧ s'.resolution = x.direct :=
  ⟨h.environment.scopes, h.environment.scope, h.environment.image, h.environment.here,
    h.environment.full, h.environment.direct⟩

/-- How an evaluation is interrupted has nothing to do with its footing. -/
theorem Interrupt.Kin.elsewhere {i i' : Interrupt} :
    i.Kin (x.run w foot) i' → i.Kin (x.run w' foot') i'
  | .error causes lines => .error causes lines
  | .starved => .starved
  | .outOfFuel => .outOfFuel
  | .misuse => .misuse

/-- The current scopes may be others. -/
theorem State.Kin.move (h : s.Kin (x.run w foot) s') (foot' : Footing)
    (there : w[foot'.scope]? = some foot'.image) :
    State.Kin (x.run w foot') { s with scope := foot'.scope }
      { s' with scope := foot'.image.scope } :=
  { h with environment := { h.environment with scope := rfl, image := rfl, here := there } }

end States

/-! ## 5. Evaluations

Images are only added.  So whatever is known of scopes is known of them later on. -/

/-- A variable has its value from the scope that it is looked up in. -/
theorem Eval.readVariable_eq (id : Id) (name : String) (line : Nat) (s : State) :
    Eval.readVariable id name line s =
      ((s.resolution.holder id s.scopes s.scope).bind (s.scopes.get? · name)).elim
        (.error (.error ⟨.undefinedVariable name, line⟩) s) (.ok · s) := by
  rw [Eval.readVariable, Eval.look_bind]
  unfold Resolution.holder Scopes.getAt?
  cases s.resolution.binding id with
  | «local» hops =>
    dsimp only
    generalize Option.bind _ _ = found
    cases found <;> rfl
  | global =>
    dsimp only [Option.bind_some]
    cases s.scopes.get? globalScope name <;> rfl

namespace Erasure

variable {α β γ δ : Type} {x : Erasure b} {w w' : Images} {foot : Footing}

/-- Two evaluations end in the same way, with more images. -/
def Follows (x : Erasure b) (w : Images) (foot : Footing) (R : Images → α → β → Prop) (y : Eval α)
    (z : Eval β) : Prop :=
  ∀ s s', s.Kin (x.run w foot) s' →
    ∃ w', w <+: w' ∧ EndKin (x.run w' foot) (R w') (y s) (z s')

namespace Follows

variable {R : Images → α → β → Prop} {S : Images → γ → δ → Prop} {y : Eval α} {z : Eval β}

/-- An evaluation that makes no scope. -/
theorem of_kin (h : Eval.Kin (x.run w foot) (R w) y z) : x.Follows w foot R y z :=
  fun s s' kin => ⟨w, List.prefix_rfl, h s s' kin⟩

theorem pure {v : α} {v' : β} (h : R w v v') :
    x.Follows w foot R (Pure.pure v) (Pure.pure v') :=
  .of_kin (.pure h)

/-- The second evaluation begins with more images, and its hypotheses have to be carried over. -/
theorem bind {f : α → Eval γ} {g : β → Eval δ} (h : x.Follows w foot R y z)
    (hf : ∀ w', w <+: w' → ∀ v v', R w' v v' → x.Follows w' foot S (f v) (g v')) :
    x.Follows w foot S (y >>= f) (z >>= g) := by
  intro s s' kin
  obtain ⟨w', le, first⟩ := h s s' kin
  change ∃ w', w <+: w' ∧ EndKin _ _ (EStateM.bind y f s) (EStateM.bind z g s')
  unfold EStateM.bind
  cases hy : y s <;> cases hz : z s' <;> rw [hy, hz] at first <;> cases first
  case ok.ok.ok value state =>
    obtain ⟨w'', le', ends⟩ := hf w' le _ _ value _ _ state
    exact ⟨w'', le.trans le', ends⟩
  case error.error.error interrupt state => exact ⟨w', le, .error interrupt state⟩

/-- An act that makes no scope, and then an evaluation that may. -/
theorem act {f : α → Eval γ} {g : β → Eval δ} {T : α → β → Prop}
    (h : Eval.Kin (x.run w foot) T y z)
    (hf : ∀ v v', T v v' → x.Follows w foot S (f v) (g v')) :
    x.Follows w foot S (y >>= f) (z >>= g) := by
  intro s s' kin
  have first := h s s' kin
  change ∃ w', w <+: w' ∧ EndKin _ _ (EStateM.bind y f s) (EStateM.bind z g s')
  unfold EStateM.bind
  cases hy : y s <;> cases hz : z s' <;> rw [hy, hz] at first <;> cases first
  case ok.ok.ok value state => exact hf _ _ value _ _ state
  case error.error.error interrupt state => exact ⟨w, List.prefix_rfl, .error interrupt state⟩

/-- What is made of an answer makes no difference. -/
theorem map {f : α → γ} {g : β → δ} (h : x.Follows w foot R y z)
    (hf : ∀ w' v v', R w' v v' → S w' (f v) (g v')) :
    x.Follows w foot S (f <$> y) (g <$> z) := by
  rw [← bind_pure_comp, ← bind_pure_comp]
  exact h.bind fun w' _ v v' value => .pure (hf w' v v' value)

theorem fail (cause : RuntimeCause) (line : Nat) :
    x.Follows w foot R (Eval.fail cause line) (Eval.fail cause line) :=
  .of_kin (.fail cause rfl)

theorem outOfFuel : x.Follows w foot R Eval.outOfFuel Eval.outOfFuel :=
  .of_kin (.throw .outOfFuel)

/-! ## 6. Scopes and calls

A bare block is where the two runs differ: one opens a scope, and the other stays where it is. -/

/-- To go to another scope and back, where it and its image are there. -/
theorem within {scope : ScopeId} {image : Image} (there : w[scope]? = some image)
    (h : x.Follows w ⟨scope, image⟩ R y z) :
    x.Follows w foot R (Eval.within scope y) (Eval.within image.scope z) := by
  intro s s' kin
  obtain ⟨w', le, ends⟩ := h _ _ (kin.move ⟨scope, image⟩ there)
  obtain ⟨-, scope_eq, image_eq, here, -⟩ := kin.erased
  have back : w'[foot.scope]? = some foot.image := Images.mono le here
  refine ⟨w', le, ?_⟩
  unfold Eval.within
  dsimp only at ends ⊢
  rw [scope_eq, image_eq]
  cases hy : y { s with scope := scope } <;> cases hz : z { s' with scope := image.scope } <;>
    rw [hy, hz] at ends <;> cases ends
  · rename_i value state
    exact .ok value (state.move foot back)
  · rename_i interrupt state
    exact .error interrupt.elsewhere (state.move foot back)

/-- The calls in progress are the same in both. -/
theorem nested (line : Nat) (h : x.Follows w foot R y z) :
    x.Follows w foot R (Eval.nested line y) (Eval.nested line z) := by
  intro s s' kin
  change ∃ w', w <+: w' ∧ EndKin _ _ (if maxDepth ≤ s.depth then _ else _)
    (if maxDepth ≤ s'.depth then _ else _)
  rw [← kin.depth]
  by_cases full : maxDepth ≤ s.depth
  · rw [if_pos full, if_pos full]
    exact ⟨w, List.prefix_rfl, .error (.error rfl rfl) kin⟩
  · rw [if_neg full, if_neg full]
    obtain ⟨w', le, ends⟩ := h { s with depth := s.depth + 1 } { s' with depth := s.depth + 1 }
      { kin with depth := rfl }
    refine ⟨w', le, ?_⟩
    cases hy : y { s with depth := s.depth + 1 } <;>
      cases hz : z { s' with depth := s.depth + 1 } <;> rw [hy, hz] at ends <;> cases ends
    · rename_i value state
      exact .ok value { state with depth := congrArg (· - 1) state.depth }
    · rename_i interrupt state
      exact .error interrupt { state with depth := congrArg (· - 1) state.depth }

/-- A scope, and one in the image of the enclosing scope. -/
theorem newScope {enclosing : ScopeId} {outer : Image} (there : w[enclosing]? = some outer) :
    x.Follows w foot (fun w' i j => w'[i]? = some ⟨j, false :: outer.marks⟩)
      (Eval.newScope enclosing) (Eval.newScope outer.scope) := by
  intro s s' kin
  obtain ⟨scopes, -, -, here, -⟩ := kin.erased
  have le : w <+: w ++ [⟨s'.scopes.all.size, false :: outer.marks⟩] := List.prefix_append _ _
  refine ⟨_, le, .ok ?_ ?_⟩
  · change (w ++ [_])[s.scopes.all.size]? = _
    rw [scopes.size, List.getElem?_concat_length]
  · exact { kin with
      heap := kin.heap.mono (le_kinship le)
      environment := { kin.environment with
        scopes := scopes.add there
        here := Images.mono le here } }

/-- A scope inside the current one has an image of its own. -/
theorem childScope : x.Follows w foot
    (fun w' i j => w'[i]? = some ⟨j, false :: foot.image.marks⟩)
    Eval.childScope Eval.childScope := by
  intro s s' kin
  obtain ⟨-, scope, image, here, -⟩ := kin.erased
  change ∃ w', w <+: w' ∧ EndKin _ _ (Eval.newScope s.scope s) (Eval.newScope s'.scope s')
  rw [scope, image]
  exact newScope here s s' kin

/-- **A bare block**: its statements are executed in a scope of their own, and without it in the
image of the scope around it. -/
theorem bareBlock
    (h : ∀ w' i, w'[i]? = some ⟨foot.image.scope, true :: foot.image.marks⟩ →
      x.Follows w' ⟨i, ⟨foot.image.scope, true :: foot.image.marks⟩⟩ R y z) :
    x.Follows w foot R (Eval.childScope >>= fun i => Eval.within i y) z := by
  intro s s' kin
  obtain ⟨scopes, scope, image, here, -⟩ := kin.erased
  let opened : Image := ⟨foot.image.scope, true :: foot.image.marks⟩
  have le : w <+: w ++ [opened] := List.prefix_append _ _
  have there : (w ++ [opened])[s.scopes.all.size]? = some opened := by
    rw [scopes.size, List.getElem?_concat_length]
  have inside : State.Kin (x.run (w ++ [opened]) ⟨s.scopes.all.size, opened⟩)
      { s with scopes := (s.scopes.add (some s.scope)).2, scope := s.scopes.all.size } s' :=
    { kin with
      heap := kin.heap.mono (le_kinship le)
      environment := { kin.environment with
        scopes := by
          rw [scope]
          exact scopes.addBare here
        scope := rfl
        here := there } }
  obtain ⟨w', le', ends⟩ := h _ _ there _ _ inside
  have back : w'[foot.scope]? = some foot.image := Images.mono (le.trans le') here
  refine ⟨w', le.trans le', ?_⟩
  change EndKin _ _ (Eval.within s.scopes.all.size y
    { s with scopes := (s.scopes.add (some s.scope)).2 }) _
  unfold Eval.within
  dsimp only
  cases hy : y { s with scopes := (s.scopes.add (some s.scope)).2, scope := s.scopes.all.size } <;>
    cases hz : z s' <;> rw [hy, hz] at ends <;> cases ends
  · rename_i value state
    exact .ok value { state with
      environment := { state.environment with scope := scope, here := back } }
  · rename_i interrupt state
    exact .error interrupt.elsewhere { state with
      environment := { state.environment with scope := scope, here := back } }

/-! ## 7. Variables

What the resolutions say of a node is all that is used of the code. -/

/-- A name that is defined in a scope with its own image is defined in the image. -/
theorem defineIn {scope : ScopeId} {image : Image} (there : w[scope]? = some image)
    (kept : image.Kept) (name : String) {v v' : Value} (value : x.values w v v') :
    Eval.Kin (x.run w foot) (· = ·) (Eval.defineIn scope name v)
      (Eval.defineIn image.scope name v') :=
  .modify fun _ _ kin => { kin with
    environment := { kin.environment with
      scopes := kin.environment.scopes.define there kept name value } }

theorem define (kept : foot.image.Kept) (name : String) {v v' : Value}
    (value : x.values w v v') :
    Eval.Kin (x.run w foot) (· = ·) (Eval.define name v) (Eval.define name v') := by
  intro s s' kin
  obtain ⟨-, scope, image, here, -⟩ := kin.erased
  change EndKin _ _ (Eval.defineIn s.scope name v s) (Eval.defineIn s'.scope name v' s')
  rw [scope, image]
  exact defineIn here kept name value s s' kin

/-- A node leads to a scope, and in the program without bare blocks to its image. -/
theorem readVariable {id : Id} (moves : x.Moves foot.image.marks id) (name : String)
    (line : Nat) :
    Eval.Kin (x.run w foot) (x.values w) (Eval.readVariable id name line)
      (Eval.readVariable id name line) := by
  intro s s' kin
  obtain ⟨scopes, scope, image, here, full, direct⟩ := kin.erased
  obtain ⟨outer, image', held, held', there, kept⟩ := scopes.holder here moves
  rw [Eval.readVariable_eq, Eval.readVariable_eq, full, direct, scope, image, held, held',
    Option.bind_some, Option.bind_some]
  rcases rel_cases (scopes.binds outer image' there kept name) with
    ⟨left, right⟩ | ⟨v, v', left, right, value⟩ <;> rw [left, right]
  · exact .error (.error rfl rfl) kin
  · exact .ok value kin

/-- As for reading. -/
theorem writeVariable {target : Variable} (moves : x.Moves foot.image.marks target.id)
    {v v' : Value} (value : x.values w v v') :
    Eval.Kin (x.run w foot) (· = ·) (Eval.writeVariable target v)
      (Eval.writeVariable target v') := by
  intro s s' kin
  obtain ⟨scopes, scope, image, here, full, direct⟩ := kin.erased
  obtain ⟨outer, image', held, held', there, kept⟩ := scopes.holder here moves
  have binds : s.scopes.binds outer target.name.text =
      s'.scopes.binds image'.scope target.name.text :=
    rel_isSome (scopes.binds outer image' there kept _)
  rw [Eval.writeVariable_eq, Eval.writeVariable_eq, full, direct, scope, image, held, held',
    Option.filter_some, Option.filter_some, ← binds]
  by_cases bound : s.scopes.binds outer target.name.text = true
  · rw [if_pos bound, if_pos bound]
    exact .ok rfl { kin with
      environment := ⟨scopes.define there kept _ value, rfl, rfl, here, rfl, rfl⟩ }
  · rw [if_neg bound, if_neg bound, Option.elim_none, Option.elim_none]
    exact .error (.error rfl rfl) kin

end Follows

end Erasure

end Lox
