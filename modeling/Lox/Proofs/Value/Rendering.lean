/-
# The text of a value

A rendering writes a value out, and its elements in turn.  It may elide a collection instead, as an
`Elision` tells from the collections around the occurrence.  `Heap.Renders` says what text this
gives, without any bound on how deep collections nest, so that there may be none.

In a sturdy heap the text of every value is its rendering with cycles elided, in which just the
collections inside themselves are (`Heap.Sturdy.renders_cycles_iff`).  That is the rendering without
any elision, if there is one, and there is one exactly if the value has no cycle
(`Heap.Sturdy.renders_never_iff`).
-/
import Lox.Proofs.Value.Sturdy

namespace Lox

/-! ## 1. Renderings -/

/-- An instance is a collection: a list of what is in its storage, or a linked list of what the walk
from its head meets. -/
inductive Heap.Lists (heap : Heap) (id : InstanceId) : Listing → Prop where
  | list {storage : StorageId} {items : Array Value}
      (held : heap.payload? id = some (.list storage))
      (stored : heap.storages[storage]? = some items) :
      Lists heap id ⟨"[", "]", ", ", items.toList⟩
  | linked {chain : Chain} {path : List (NodeId × Value)}
      (held : heap.payload? id = some (.linkedList chain))
      (walk : heap.nodes.Walk chain.head path) :
      Lists heap id ⟨"(", ")", " ", path.map Prod.snd⟩

/-- Which occurrences of collections are elided, given the collections around them. -/
abbrev Elision := (around : List InstanceId) → InstanceId → Prop

namespace Elision

/-- Nothing is elided. -/
def never : Elision := fun _ _ => False

/-- A collection is elided inside itself. -/
def cycles : Elision := fun around id => id ∈ around

end Elision

/-- The rendering of an occurrence of a value inside some collections, the innermost first. -/
inductive Heap.Renders (heap : Heap) (elides : Elision) :
    List InstanceId → Value → String → Prop where
  | atom {around : List InstanceId} {value : Value} (atom : ∀ id, value ≠ .inst id) :
      Renders heap elides around value value.atomText
  | plain {around : List InstanceId} {id : InstanceId}
      (plain : ∀ listing, ¬ heap.Lists id listing) :
      Renders heap elides around (.inst id) (heap.plainText id)
  | elided {around : List InstanceId} {id : InstanceId} {listing : Listing}
      (lists : heap.Lists id listing) (elided : elides around id) :
      Renders heap elides around (.inst id) listing.elided
  | full {around : List InstanceId} {id : InstanceId} {listing : Listing} {texts : List String}
      (lists : heap.Lists id listing) (full : ¬ elides around id)
      (length : texts.length = listing.items.length)
      (parts : ∀ (i : Nat) (value : Value) (text : String), listing.items[i]? = some value →
        texts[i]? = some text →
        Renders heap elides (id :: around) value text) :
      Renders heap elides around (.inst id) (listing.join texts)

/-- A collection has an instance among its elements. -/
def Heap.Contains (heap : Heap) (outer inner : InstanceId) : Prop :=
  ∃ listing, heap.Lists outer listing ∧ .inst inner ∈ listing.items

/-- No collection in a value contains itself, be it among the elements of its elements. -/
def Heap.Acyclic (heap : Heap) (value : Value) : Prop :=
  ∀ id, value = .inst id → ∀ inner, Relation.ReflTransGen heap.Contains id inner →
    ¬ Relation.TransGen heap.Contains inner inner

namespace Heap

variable {heap : Heap} {elides : Elision} {around around' : List InstanceId} {value : Value}
  {id : InstanceId} {text text' : String} {listing listing' : Listing}

theorem Lists.unique (h : heap.Lists id listing) (h' : heap.Lists id listing') :
    listing = listing' := by
  cases h with
  | list held stored =>
    cases h' with
    | list held' stored' =>
      cases held.symm.trans held'
      cases stored.symm.trans stored'
      rfl
    | linked held' walk' => cases held.symm.trans held'
  | linked held walk =>
    cases h' with
    | list held' stored' => cases held.symm.trans held'
    | linked held' walk' =>
      cases held.symm.trans held'
      rw [walk.unique walk']

theorem Lists.lt_size (h : heap.Lists id listing) : id < heap.instances.size := by
  have found : ∃ payload, heap.payload? id = some payload := by
    cases h <;> exact ⟨_, ‹_›⟩
  obtain ⟨payload, hpayload⟩ := found
  obtain ⟨inst, hinst, -⟩ := Option.bind_eq_some_iff.1 hpayload
  exact (Array.getElem?_eq_some_iff.1 hinst).1

/-- There is at most one rendering. -/
theorem Renders.unique (h : heap.Renders elides around value text)
    (h' : heap.Renders elides around value text') : text = text' := by
  induction h generalizing text' with
  | atom atom =>
    cases h' with
    | atom => rfl
    | plain | elided | full => exact absurd rfl (atom _)
  | plain plain =>
    cases h' with
    | atom atom => exact absurd rfl (atom _)
    | plain => rfl
    | elided lists | full lists => exact absurd lists (plain _)
  | elided lists elided =>
    cases h' with
    | atom atom => exact absurd rfl (atom _)
    | plain plain => exact absurd lists (plain _)
    | elided lists' => rw [lists.unique lists']
    | full lists' full => exact absurd elided full
  | @full around id listing texts lists full length parts ih =>
    cases h' with
    | atom atom => exact absurd rfl (atom _)
    | plain plain => exact absurd lists (plain _)
    | elided lists' elided => exact absurd elided full
    | @full _ _ listing' texts' lists' _ length' parts' =>
      obtain rfl := lists.unique lists'
      have same : texts = texts' := by
        refine List.ext_getElem? fun i => ?_
        by_cases hi : i < listing.items.length
        · have ht : texts[i]? = some texts[i] := List.getElem?_eq_getElem (length ▸ hi)
          have ht' : texts'[i]? = some texts'[i] := List.getElem?_eq_getElem (length' ▸ hi)
          have hv := List.getElem?_eq_getElem hi
          rw [ht, ht', ih i _ _ hv ht (parts' i _ _ hv ht')]
        · rw [List.getElem?_eq_none (by omega), List.getElem?_eq_none (by omega)]
      rw [same]

/-- A collection that is not elided is rendered with its elements. -/
theorem Renders.parts (h : heap.Renders elides around (.inst id) text)
    (lists : heap.Lists id listing) (full : ¬ elides around id) :
    ∃ texts, text = listing.join texts ∧
      List.Forall₂ (heap.Renders elides (id :: around)) listing.items texts := by
  cases h with
  | atom atom => exact absurd rfl (atom id)
  | plain plain => exact absurd lists (plain listing)
  | elided lists' elided => exact absurd elided full
  | @full _ _ listing' texts lists' _ length parts =>
    obtain rfl := lists.unique lists'
    refine ⟨texts, rfl, List.forall₂_iff_get.2 ⟨length.symm, fun i hi hi' => ?_⟩⟩
    exact parts i _ _ (List.getElem?_eq_getElem hi) (List.getElem?_eq_getElem hi')

/-! ## 2. The text of a value is a rendering -/

theorem Sturdy.listing?_eq_some_iff (sturdy : heap.Sturdy) :
    heap.listing? id = some listing ↔ heap.Lists id listing := by
  cases found : heap.payload? id with
  | none =>
    simp only [listing?, found, reduceCtorEq, false_iff]
    rintro (⟨held, -⟩ | ⟨held, -⟩) <;> cases found.symm.trans held
  | some payload =>
    have there := sturdy.payloads id payload found
    cases payload with
    | list storage =>
      have stored := Array.getElem?_eq_getElem there
      simp only [listing?, found, stored, Option.getD_some]
      constructor
      · intro h
        cases h
        exact .list found stored
      · intro h
        rw [(Lists.list found stored).unique h]
    | linkedList chain =>
      obtain ⟨path, walk⟩ := there
      simp only [listing?, found, Nodes.toList, Nodes.path_of_walk walk]
      constructor
      · intro h
        cases h
        exact .linked found walk
      · intro h
        rw [(Lists.linked found walk).unique h]
    | iterator iterator =>
      simp only [listing?, found, reduceCtorEq, false_iff]
      rintro (⟨held, -⟩ | ⟨held, -⟩) <;> cases found.symm.trans held

/-- The instances that are not open yet. -/
def closed (heap : Heap) (opened : List InstanceId) : List InstanceId :=
  (List.range heap.instances.size).filter (· ∉ opened)

theorem closed_cons_lt (lt : id < heap.instances.size) (outside : id ∉ around) :
    (heap.closed (id :: around)).length < (heap.closed around).length := by
  have sub : heap.closed (id :: around) = (heap.closed around).filter (· ≠ id) := by
    simp only [closed, List.filter_filter, List.mem_cons, not_or, Bool.decide_and]
  have mem : id ∈ heap.closed around := by
    simpa [closed] using ⟨lt, outside⟩
  rw [sub]
  exact List.length_filter_lt_length_iff_exists.2 ⟨id, mem, by simp⟩

theorem textWithin_atom (depth : Nat) (around : List InstanceId) (atom : ∀ id, value ≠ .inst id) :
    heap.textWithin depth around value = value.atomText := by
  cases value with
  | inst id => exact absurd rfl (atom id)
  | _ => cases depth <;> rfl

theorem Lists.textWithin_succ (sturdy : heap.Sturdy) (lists : heap.Lists id listing)
    (outside : id ∉ around) (depth : Nat) :
    heap.textWithin (depth + 1) around (.inst id) =
      listing.join (listing.items.map (heap.textWithin depth (id :: around))) := by
  rw [textWithin]
  simp only [sturdy.listing?_eq_some_iff.2 lists, List.contains_iff_mem, outside, if_false]

theorem Lists.textWithin_inside (sturdy : heap.Sturdy) (lists : heap.Lists id listing)
    (inside : id ∈ around) (depth : Nat) :
    heap.textWithin depth around (.inst id) = listing.elided := by
  have open' : around.contains id = true := List.contains_iff_mem.2 inside
  cases depth <;> rw [textWithin] <;>
    simp only [sturdy.listing?_eq_some_iff.2 lists, open', if_true]

/-- Only a collection that is not open yet needs depth. -/
theorem Sturdy.renders_of_closed (sturdy : heap.Sturdy) {depth : Nat}
    (deep : ∀ id listing, value = .inst id → heap.Lists id listing → id ∉ around →
      heap.Renders .cycles around value (heap.textWithin depth around value)) :
    heap.Renders .cycles around value (heap.textWithin depth around value) := by
  by_cases atom : ∀ id, value ≠ .inst id
  · rw [textWithin_atom depth around atom]
    exact .atom atom
  · obtain ⟨id, rfl⟩ : ∃ id, value = .inst id := by simpa using atom
    cases found : heap.listing? id with
    | none =>
      have text : heap.textWithin depth around (.inst id) = heap.plainText id := by
        cases depth <;> rw [textWithin] <;> simp only [found]
      rw [text]
      exact .plain fun listing lists => by
        cases found.symm.trans (sturdy.listing?_eq_some_iff.2 lists)
    | some listing =>
      have lists := sturdy.listing?_eq_some_iff.1 found
      by_cases inside : id ∈ around
      · rw [lists.textWithin_inside sturdy inside]
        exact .elided lists inside
      · exact deep id listing rfl lists inside

/-- Writing a value inside collections goes at most as deep as there are others. -/
theorem Sturdy.renders_textWithin (sturdy : heap.Sturdy) {depth : Nat}
    (enough : (heap.closed around).length ≤ depth) (value : Value) :
    heap.Renders .cycles around value (heap.textWithin depth around value) := by
  induction depth generalizing around value with
  | zero =>
    refine sturdy.renders_of_closed fun id listing _ lists outside => ?_
    exact absurd (closed_cons_lt lists.lt_size outside) (by omega)
  | succ depth ih =>
    refine sturdy.renders_of_closed fun id listing hvalue lists outside => ?_
    subst hvalue
    have less := closed_cons_lt lists.lt_size outside
    rw [lists.textWithin_succ sturdy outside]
    refine .full lists outside (List.length_map _) fun i value text found written => ?_
    rw [List.getElem?_map, found] at written
    cases written
    exact ih (by omega) value

/-- Inside any collections a value has a rendering with cycles elided. -/
theorem Sturdy.exists_renders (sturdy : heap.Sturdy) (around : List InstanceId) (value : Value) :
    ∃ text, heap.Renders .cycles around value text :=
  ⟨_, sturdy.renders_textWithin (Nat.le_refl _) value⟩

/-- **The text of a value is its rendering with cycles elided**, in a sturdy heap. -/
theorem Sturdy.renders_cycles_iff (sturdy : heap.Sturdy) :
    heap.Renders .cycles [] value text ↔ text = heap.text value := by
  have enough : (heap.closed []).length ≤ heap.instances.size + 1 := by
    have := List.length_filter_le (· ∉ ([] : List InstanceId)) (List.range heap.instances.size)
    rw [List.length_range] at this
    exact Nat.le_succ_of_le this
  have renders := sturdy.renders_textWithin enough value
  exact ⟨fun h => h.unique renders, fun h => h ▸ renders⟩

/-! ## 3. Collections without cycles -/

/-- Collections that an occurrence does not lead back to make no difference to it. -/
theorem Renders.apart (h : heap.Renders .cycles around value text)
    (sub : ∀ outer ∈ around', outer ∈ around)
    (apart : ∀ outer ∈ around, outer ∈ around' ∨
      ∀ id, value = .inst id → ¬ Relation.ReflTransGen heap.Contains id outer) :
    heap.Renders .cycles around' value text := by
  induction h generalizing around' with
  | atom atom => exact .atom atom
  | plain plain => exact .plain plain
  | @elided around id listing lists elided =>
    exact .elided lists ((apart id elided).resolve_right fun h => h id rfl .refl)
  | @full around id listing texts lists full length parts ih =>
    refine .full lists (fun h => full (sub id h)) length fun i value text found written => ?_
    refine ih i value text found written (fun outer h => ?_) fun outer h => ?_
    · exact (List.mem_cons.1 h).elim (fun same => same ▸ List.mem_cons_self)
        fun h => List.mem_cons_of_mem _ (sub outer h)
    · rcases List.mem_cons.1 h with rfl | h
      · exact .inl List.mem_cons_self
      · refine (apart outer h).imp (List.mem_cons_of_mem _) fun away inner hinner reaches => ?_
        subst hinner
        exact away id rfl (.head ⟨listing, lists, List.mem_of_getElem? found⟩ reaches)

/-- In a value without cycles nothing is elided. -/
theorem Renders.never_of_acyclic (h : heap.Renders .cycles around value text)
    (acyclic : heap.Acyclic value)
    (inside : ∀ outer ∈ around, ∀ id, value = .inst id →
      Relation.TransGen heap.Contains outer id) :
    heap.Renders .never around' value text := by
  induction h generalizing around' with
  | atom atom => exact .atom atom
  | plain plain => exact .plain plain
  | @elided around id listing lists elided =>
    exact absurd (inside id elided id rfl) (acyclic id rfl id .refl)
  | @full around id listing texts lists full length parts ih =>
    refine .full lists (fun no => no) length fun i value text found written => ?_
    have step : ∀ {inner}, value = .inst inner → heap.Contains id inner :=
      fun h => ⟨listing, lists, h ▸ List.mem_of_getElem? found⟩
    refine ih i value text found written (fun inner hinner other reaches => ?_)
      fun outer h inner hinner => ?_
    · exact acyclic id rfl other (.head (step hinner) reaches)
    · rcases List.mem_cons.1 h with rfl | h
      · exact .single (step hinner)
      · exact (inside outer h id rfl).tail (step hinner)

/-- A rendering without elisions goes through everything that a value leads to. -/
theorem Renders.acc (h : heap.Renders .never around value text) (hvalue : value = .inst id) :
    Acc (fun inner outer => heap.Contains outer inner) id := by
  induction h generalizing id with
  | atom atom => exact absurd hvalue (atom id)
  | plain plain =>
    cases hvalue
    exact .intro _ fun inner ⟨listing, lists, _⟩ => absurd lists (plain listing)
  | elided lists elided => exact elided.elim
  | @full around id' listing texts lists full length parts ih =>
    cases hvalue
    refine .intro _ fun inner ⟨listing', lists', mem⟩ => ?_
    obtain rfl := lists.unique lists'
    obtain ⟨i, found⟩ := List.mem_iff_getElem?.1 mem
    have hi : i < texts.length := length ▸ (List.getElem?_eq_some_iff.1 found).1
    exact ih i _ _ found (List.getElem?_eq_getElem hi) rfl

theorem not_cycle_of_acc (h : Acc (fun inner outer => heap.Contains outer inner) id) :
    ¬ Relation.TransGen heap.Contains id id := by
  induction h with
  | intro id _ ih =>
    intro cycle
    obtain ⟨inner, first, rest⟩ := Relation.TransGen.head'_iff.1 cycle
    exact ih inner first (.tail' rest first)

theorem Renders.acyclic (h : heap.Renders .never around value text) : heap.Acyclic value := by
  intro id hvalue inner reaches
  have acc := h.acc hvalue
  refine not_cycle_of_acc ?_
  induction reaches with
  | refl => exact acc
  | tail _ last ih => exact ih.inv last

/-- **The rendering without elisions is the text of a value**, and there is one exactly if the value
has no cycle. -/
theorem Sturdy.renders_never_iff (sturdy : heap.Sturdy) :
    heap.Renders .never [] value text ↔ heap.Acyclic value ∧ text = heap.text value := by
  have shown : heap.Acyclic value → heap.Renders .never [] value (heap.text value) :=
    fun acyclic => (sturdy.renders_cycles_iff.2 rfl).never_of_acyclic acyclic
      fun outer h => absurd h List.not_mem_nil
  constructor
  · intro h
    exact ⟨h.acyclic, h.unique (shown h.acyclic)⟩
  · rintro ⟨acyclic, rfl⟩
    exact shown acyclic

end Heap

end Lox
