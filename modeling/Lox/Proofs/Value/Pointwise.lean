/-
# Containers with related elements

A relation between elements makes one between the containers that hold them: they have the same
shape, and at every place the elements are related.  Whatever is done to both alike leaves them
related, and what is found in them is related.
-/
import Lox.Chain.Basic
import Lox.Scope
import Mathlib.Data.List.Forall2

namespace Lox

variable {α β γ δ : Type} {R : α → β → Prop} {S : γ → δ → Prop}

/-! ## 1. Options

A look-up gives something or nothing.  Related look-ups agree on which, and what they give is
related. -/

/-- What is made of related elements is related, where there are any. -/
theorem rel_map {o : Option α} {o' : Option β} {f : α → γ} {g : β → δ} (h : Option.Rel R o o')
    (hf : ∀ a b, R a b → S (f a) (g b)) : Option.Rel S (o.map f) (o'.map g) := by
  cases h with
  | none => exact .none
  | some h => exact .some (hf _ _ h)

/-- Two looks one behind the other: if the first finds related elements, the second goes on from
these. -/
theorem rel_bind {o : Option α} {o' : Option β} {f : α → Option γ} {g : β → Option δ}
    (h : Option.Rel R o o') (hf : ∀ a b, R a b → Option.Rel S (f a) (g b)) :
    Option.Rel S (o.bind f) (o'.bind g) := by
  cases h with
  | none => exact .none
  | some h => exact hf _ _ h

/-- There is nothing on either side, or there are two related elements. -/
theorem rel_cases {o : Option α} {o' : Option β} (h : Option.Rel R o o') :
    (o = none ∧ o' = none) ∨ ∃ a b, o = some a ∧ o' = some b ∧ R a b := by
  cases h with
  | none => exact .inl ⟨rfl, rfl⟩
  | some h => exact .inr ⟨_, _, rfl, rfl, h⟩

theorem rel_imp {R' : α → β → Prop} {o : Option α} {o' : Option β} (h : Option.Rel R o o')
    (imp : ∀ a b, R a b → R' a b) : Option.Rel R' o o' := by
  cases h with
  | none => exact .none
  | some h => exact .some (imp _ _ h)

theorem rel_isSome {o : Option α} {o' : Option β} (h : Option.Rel R o o') :
    o.isSome = o'.isSome := by
  cases h <;> rfl

/-! ## 2. Arrays

Indices are the same on both sides.  So is what is out of bounds, and no operation has to be asked
whether it is. -/

/-- Arrays of one size whose elements are related place by place. -/
def ArrayRel (R : α → β → Prop) (a : Array α) (b : Array β) : Prop :=
  ∀ i : Nat, Option.Rel R a[i]? b[i]?

namespace ArrayRel

variable {a : Array α} {b : Array β}

theorem imp {R' : α → β → Prop} (h : ArrayRel R a b) (himp : ∀ x y, R x y → R' x y) :
    ArrayRel R' a b :=
  fun i => rel_imp (h i) himp

/-- The relation keeps the shape, and so all that only depends on the shape. -/
theorem size_eq (h : ArrayRel R a b) : a.size = b.size := by
  have same : ∀ i, i < a.size ↔ i < b.size := by
    intro i
    rcases rel_cases (h i) with ⟨left, right⟩ | ⟨x, y, left, right, -⟩
    · have := Array.getElem?_eq_none_iff.1 left
      have := Array.getElem?_eq_none_iff.1 right
      omega
    · obtain ⟨lt, -⟩ := Array.getElem?_eq_some_iff.1 left
      obtain ⟨lt', -⟩ := Array.getElem?_eq_some_iff.1 right
      exact iff_of_true lt lt'
  have := same a.size
  have := same b.size
  omega

theorem empty : ArrayRel R #[] #[] := by
  intro i
  rw [Array.getElem?_empty, Array.getElem?_empty]
  exact .none

/-- A related pair at the end goes with the pairs that are there. -/
theorem push (h : ArrayRel R a b) {x : α} {y : β} (hxy : R x y) :
    ArrayRel R (a.push x) (b.push y) := by
  intro i
  rw [Array.getElem?_push, Array.getElem?_push, h.size_eq]
  split
  · exact .some hxy
  · exact h i

/-- A change at one place keeps the relation if it keeps it for the elements there, which are
related before.  An index out of bounds changes nothing on either side. -/
theorem modify (h : ArrayRel R a b) (i : Nat) {f : α → α} {g : β → β}
    (hf : ∀ x y, R x y → R (f x) (g y)) : ArrayRel R (a.modify i f) (b.modify i g) := by
  intro j
  rw [Array.getElem?_modify, Array.getElem?_modify]
  split
  · exact rel_map (h j) hf
  · exact h j

theorem setIfInBounds (h : ArrayRel R a b) (i : Nat) {x : α} {y : β} (hxy : R x y) :
    ArrayRel R (a.setIfInBounds i x) (b.setIfInBounds i y) := by
  intro j
  rw [Array.getElem?_setIfInBounds, Array.getElem?_setIfInBounds, h.size_eq]
  split
  · split
    · exact .some hxy
    · exact .none
  · exact h j

/-- An array can be compared with another one as lists can. -/
theorem ofList {xs : List α} {ys : List β} (h : List.Forall₂ R xs ys) :
    ArrayRel R xs.toArray ys.toArray := by
  intro i
  rw [List.getElem?_toArray, List.getElem?_toArray]
  induction h generalizing i with
  | nil => exact .none
  | cons first rest ih =>
    cases i with
    | zero => exact .some first
    | succ i => exact ih i

/-- The way back: arrays that are compared place by place are lists that are. -/
theorem toList (h : ArrayRel R a b) : List.Forall₂ R a.toList b.toList := by
  refine List.forall₂_iff_get.2 ⟨h.size_eq, fun i hi hi' => ?_⟩
  have := h i
  rw [← Array.getElem?_toList, ← Array.getElem?_toList, List.getElem?_eq_getElem hi,
    List.getElem?_eq_getElem hi'] at this
  cases this with
  | some related => exact related

end ArrayRel

/-! ## 3. Maps

Names are never related but by being the same, so a look at a name goes the same way through both
maps. -/

/-- Maps with the same names, in the same order, whose values are related. -/
def Bindings.Rel (R : α → β → Prop) (b : Bindings α) (b' : Bindings β) : Prop :=
  List.Forall₂ (fun entry entry' => entry.1 = entry'.1 ∧ R entry.2 entry'.2) b.entries b'.entries

namespace Bindings.Rel

variable {b : Bindings α} {b' : Bindings β}

theorem imp {R' : α → β → Prop} (h : b.Rel R b') (himp : ∀ x y, R x y → R' x y) :
    b.Rel R' b' :=
  List.Forall₂.imp (fun _ _ entry => ⟨entry.1, himp _ _ entry.2⟩) h

theorem empty : (Bindings.empty : Bindings α).Rel R (Bindings.empty : Bindings β) := .nil

/-- A name is bound on both sides or on neither, and then to related values. -/
theorem get? (h : b.Rel R b') (name : String) : Option.Rel R (b.get? name) (b'.get? name) := by
  obtain ⟨entries⟩ := b
  obtain ⟨entries'⟩ := b'
  change List.Forall₂ _ entries entries' at h
  change Option.Rel R (find? name entries) (find? name entries')
  induction h with
  | nil => exact .none
  | @cons entry entry' _ _ first rest ih =>
    obtain ⟨bound, value⟩ := entry
    obtain ⟨bound', value'⟩ := entry'
    obtain ⟨rfl, related⟩ := first
    rw [find?, find?]
    split
    · exact .some related
    · exact ih

/-- A name that is there is rebound in its place, and a new one is added at the end, on both sides
alike. -/
theorem insert (h : b.Rel R b') (name : String) {x : α} {y : β} (hxy : R x y) :
    (b.insert name x).Rel R (b'.insert name y) := by
  obtain ⟨entries⟩ := b
  obtain ⟨entries'⟩ := b'
  change List.Forall₂ _ entries entries' at h
  change List.Forall₂ _ (put name x entries) (put name y entries')
  induction h with
  | nil => exact .cons ⟨rfl, hxy⟩ .nil
  | @cons entry entry' _ _ first rest ih =>
    obtain ⟨bound, value⟩ := entry
    obtain ⟨bound', value'⟩ := entry'
    obtain ⟨rfl, related⟩ := first
    rw [put, put]
    split
    · exact .cons ⟨rfl, hxy⟩ rest
    · exact .cons ⟨rfl, related⟩ ih

/-- Later pairs rebind names of earlier ones, on both sides alike. -/
theorem ofList {pairs : List (String × α)} {pairs' : List (String × β)}
    (h : List.Forall₂ (fun pair pair' => pair.1 = pair'.1 ∧ R pair.2 pair'.2) pairs pairs') :
    (Bindings.ofList pairs).Rel R (Bindings.ofList pairs') := by
  have go : ∀ {b : Bindings α} {b' : Bindings β}, b.Rel R b' →
      (pairs.foldl (fun bindings pair => bindings.insert pair.1 pair.2) b).Rel R
        (pairs'.foldl (fun bindings pair => bindings.insert pair.1 pair.2) b') := by
    induction h with
    | nil => exact fun same => same
    | @cons pair pair' _ _ first _ ih =>
      obtain ⟨name, value⟩ := pair
      obtain ⟨name', value'⟩ := pair'
      obtain ⟨rfl, related⟩ := first
      intro b b' same
      exact ih (same.insert name related)
  exact go empty

end Bindings.Rel

/-! ## 4. Scopes

Scopes are told apart by where they stand, and links between them are numbers.  So the shape of the
two sets of scopes is the same, and only the values in them differ. -/

/-- Scopes in the same scope, whose values are related. -/
structure Scope.Rel (R : α → β → Prop) (s : Scope α) (s' : Scope β) : Prop where
  bindings : s.bindings.Rel R s'.bindings
  enclosing : s.enclosing = s'.enclosing

/-- As many scopes, related one by one. -/
def Scopes.Rel (R : α → β → Prop) (s : Scopes α) (s' : Scopes β) : Prop :=
  ArrayRel (Scope.Rel R) s.all s'.all

namespace Scopes.Rel

variable {s : Scopes α} {s' : Scopes β}

theorem imp {R' : α → β → Prop} (h : s.Rel R s') (himp : ∀ x y, R x y → R' x y) : s.Rel R' s' :=
  ArrayRel.imp h fun _ _ scope => ⟨scope.bindings.imp himp, scope.enclosing⟩

theorem size_eq (h : s.Rel R s') : s.all.size = s'.all.size := ArrayRel.size_eq h

/-- A new scope is empty, and lies in the same scope on both sides. -/
theorem add (h : s.Rel R s') (enclosing : Option ScopeId) :
    (s.add enclosing).2.Rel R (s'.add enclosing).2 :=
  ArrayRel.push h ⟨.empty, rfl⟩

/-- What is bound to a name has to be related, and nothing else changes. -/
theorem define (h : s.Rel R s') (id : ScopeId) (name : String) {x : α} {y : β} (hxy : R x y) :
    (s.define id name x).Rel R (s'.define id name y) :=
  ArrayRel.modify h id fun _ _ scope => ⟨scope.bindings.insert name hxy, scope.enclosing⟩

/-- A scope has the same names on both sides. -/
theorem get? (h : s.Rel R s') (id : ScopeId) (name : String) :
    Option.Rel R (s.get? id name) (s'.get? id name) :=
  rel_bind (h id) fun _ _ scope => scope.bindings.get? name

/-- The links between scopes are the same, as they are no values. -/
theorem enclosing?_eq (h : s.Rel R s') (id : ScopeId) : s.enclosing? id = s'.enclosing? id := by
  unfold enclosing?
  rcases rel_cases (h id) with ⟨left, right⟩ | ⟨scope, scope', left, right, same⟩
  · rw [left, right]
    rfl
  · rw [left, right]
    exact same.enclosing

/-- So going outwards comes to the same scope. -/
theorem ancestor?_eq (h : s.Rel R s') (id : ScopeId) (hops : Nat) :
    s.ancestor? id hops = s'.ancestor? id hops := by
  induction hops generalizing id with
  | zero => rfl
  | succ hops ih =>
    rw [ancestor?, ancestor?, h.enclosing?_eq]
    cases s'.enclosing? id with
    | none => rfl
    | some outer => exact ih outer

/-- A look outwards finds related values: it comes to the same scope on both sides. -/
theorem getAt? (h : s.Rel R s') (id : ScopeId) (hops : Nat) (name : String) :
    Option.Rel R (s.getAt? id hops name) (s'.getAt? id hops name) := by
  unfold Scopes.getAt?
  rw [h.ancestor?_eq]
  cases s'.ancestor? id hops with
  | none => exact .none
  | some scope => exact h.get? scope name

theorem binds_eq (h : s.Rel R s') (id : ScopeId) (name : String) :
    s.binds id name = s'.binds id name :=
  rel_isSome (h.get? id name)

end Scopes.Rel

/-! ## 5. Nodes of chains

As with scopes, links between nodes are numbers, and are the same on both sides.  All that is done
to a chain follows its links, and comes to the same nodes. -/

/-- Nodes with the same link, whose elements are related. -/
structure Node.Rel (R : α → β → Prop) (n : Node α) (n' : Node β) : Prop where
  element : R n.element n'.element
  next : n.next = n'.next

/-- As many nodes, related one by one. -/
def Nodes.Rel (R : α → β → Prop) (n : Nodes α) (n' : Nodes β) : Prop :=
  ArrayRel (Option.Rel (Node.Rel R)) n.all n'.all

namespace Nodes.Rel

variable {n : Nodes α} {n' : Nodes β}

theorem imp {R' : α → β → Prop} (h : n.Rel R n') (himp : ∀ x y, R x y → R' x y) : n.Rel R' n' :=
  ArrayRel.imp h fun _ _ node => rel_imp node fun _ _ found => ⟨himp _ _ found.element, found.next⟩

/-- A node is there on both sides or on neither. -/
theorem node? (h : n.Rel R n') (id : NodeId) :
    Option.Rel (Node.Rel R) (n.node? id) (n'.node? id) := by
  unfold Nodes.node?
  rcases rel_cases (h id) with ⟨left, right⟩ | ⟨node, node', left, right, same⟩
  · rw [left, right]
    exact .none
  · rw [left, right]
    exact same

/-- The links between nodes are the same, and so a walk takes the same way on both sides. -/
theorem next_eq (h : n.Rel R n') (id : NodeId) :
    (n.node? id).bind Node.next = (n'.node? id).bind Node.next := by
  rcases rel_cases (h.node? id) with ⟨left, right⟩ | ⟨node, node', left, right, same⟩
  · rw [left, right]
    rfl
  · rw [left, right]
    exact same.next

/-- A walk passes the same nodes in step, and the elements in them are related. -/
theorem follow (h : n.Rel R n') (steps : Nat) (link : Option NodeId) :
    List.Forall₂ (fun x y => x.1 = y.1 ∧ R x.2 y.2) (n.follow steps link)
      (n'.follow steps link) := by
  induction steps generalizing link with
  | zero => exact .nil
  | succ steps ih =>
    cases link with
    | none => exact .nil
    | some id =>
      rw [Nodes.follow, Nodes.follow]
      rcases rel_cases (h.node? id) with ⟨left, right⟩ | ⟨node, node', left, right, same⟩
      · rw [left, right]
        exact .nil
      · rw [left, right]
        dsimp only
        rw [same.next]
        exact .cons ⟨rfl, same.element⟩ (ih _)

/-- So do the nodes of a whole chain. -/
theorem path (h : n.Rel R n') (chain : Chain) :
    List.Forall₂ (fun x y => x.1 = y.1 ∧ R x.2 y.2) (n.path chain) (n'.path chain) := by
  unfold Nodes.path
  rw [ArrayRel.size_eq h]
  exact h.follow _ _

theorem toList (h : n.Rel R n') (chain : Chain) :
    List.Forall₂ R (n.toList chain) (n'.toList chain) :=
  List.forall₂_map_left_iff.2 (List.forall₂_map_right_iff.2
    ((h.path chain).imp fun _ _ found => found.2))

theorem length_eq (h : n.Rel R n') (chain : Chain) : n.length chain = n'.length chain :=
  (h.path chain).length_eq

theorem first? (h : n.Rel R n') (chain : Chain) :
    Option.Rel R (n.first? chain) (n'.first? chain) := by
  unfold Nodes.first?
  cases chain.head with
  | none => exact .none
  | some head => exact rel_map (h.node? head) fun _ _ node => node.element

/-- The end of a walk only depends on the links. -/
theorem endFrom_eq (h : n.Rel R n') (steps : Nat) (id : NodeId) :
    n.endFrom steps id = n'.endFrom steps id := by
  induction steps generalizing id with
  | zero => rfl
  | succ steps ih =>
    rw [endFrom, endFrom, h.next_eq]
    cases (n'.node? id).bind Node.next with
    | none => rfl
    | some next => exact ih next

/-- The last node is the same, whether it is remembered or has to be walked to. -/
theorem lastNode?_eq (h : n.Rel R n') (chain : Chain) : n.lastNode? chain = n'.lastNode? chain := by
  unfold lastNode?
  cases chain.head with
  | none => rfl
  | some head =>
    cases chain.last with
    | none =>
      simp only [Option.map_some]
      rw [h.endFrom_eq, ArrayRel.size_eq h]
    | some last =>
      simp only [Option.map_some]
      rw [h.endFrom_eq, ArrayRel.size_eq h, rel_isSome (h.node? last)]

/-- What is behind the first node is the same chain of nodes. -/
theorem tail_eq (h : n.Rel R n') (chain : Chain) : n.tail chain = n'.tail chain := by
  unfold tail
  cases chain.head with
  | none => rfl
  | some head =>
    rw [Option.bind_some, Option.bind_some, h.next_eq]

theorem add (h : n.Rel R n') {x : α} {y : β} (hxy : R x y) (next : Option NodeId) :
    (n.add ⟨x, next⟩).2.Rel R (n'.add ⟨y, next⟩).2 :=
  ArrayRel.push h (.some ⟨hxy, rfl⟩)

/-- Linking a node to another one leaves the elements alone. -/
theorem link (h : n.Rel R n') (id next : NodeId) : (n.link id next).Rel R (n'.link id next) :=
  ArrayRel.modify h id fun _ _ node => rel_map node fun _ _ found => ⟨found.element, rfl⟩

/-- A new node in front is the same node on both sides, with related elements in it. -/
theorem push (h : n.Rel R n') (chain : Chain) {x : α} {y : β} (hxy : R x y) :
    (n.push chain x).1 = (n'.push chain y).1 ∧ (n.push chain x).2.Rel R (n'.push chain y).2 := by
  have size := ArrayRel.size_eq h
  refine ⟨?_, h.add hxy _⟩
  simp only [Nodes.push, Nodes.add, size]

/-- So is a new node at the end: it is linked to from the same last node. -/
theorem pushBack (h : n.Rel R n') (chain : Chain) {x : α} {y : β} (hxy : R x y) :
    (n.pushBack chain x).1 = (n'.pushBack chain y).1 ∧
      (n.pushBack chain x).2.Rel R (n'.pushBack chain y).2 := by
  have size := ArrayRel.size_eq h
  have added := h.add hxy none
  simp only [Nodes.pushBack, h.lastNode?_eq]
  cases n'.lastNode? chain with
  | none => exact ⟨by simp only [Nodes.add, size], added⟩
  | some last =>
    refine ⟨by simp only [Nodes.add, size], ?_⟩
    simp only [Nodes.add, size] at added ⊢
    exact added.link _ _

end Nodes.Rel

end Lox
