/-
# What a session prints of a value

What every change of the heap keeps holds of the heap in every state of a session
(`Course.heap_of_reached`), so all heaps of a session are sturdy.  Hence the text of a value elides
just the collections inside themselves (`text_elides_exactly_cycles`).
-/
import Lox.Proofs.Session.Payload
import Lox.Proofs.Value.Rendering

namespace Lox

/-! ## 1. Invariants of the heap -/

/-- The heaps of a run have a property. -/
def Heap.keeping (p : Heap → Prop) : Regime where
  leads s s' := p s.heap ∧ p s'.heap
  pre _ _ s := p s.heap
  gives _ _ _ := True

section Keeping

variable {p : Heap → Prop} (change : ∀ heap heap', p heap → heap.Change heap' → p heap')

include change

theorem Heap.Develops.keeps {heap heap' : Heap} (h : heap.Develops heap') (start : p heap) :
    p heap' := by
  induction h with
  | refl => exact start
  | tail _ changed ih => exact change _ _ ih changed

theorem Eval.Develops.ends {α : Type} {x : Eval α} (h : x.Develops) {s : State}
    (start : p s.heap) : Ends (x s) (fun _ s' => p s'.heap) fun _ s' => p s'.heap := by
  have kept := (h s).heap.keeps change start
  cases hs : x s <;> rw [hs] at kept <;> exact kept

/-- A script whose acts only change the heap keeps what the changes keep. -/
theorem Script.Acts.obeys {α : Type} {script : Script α} (acts : script.Acts @Eval.Develops)
    {history : Moment → Prop} {fuel : Nat} {last s : State} (behind : p last.heap)
    (here : p s.heap) :
    script.Obeys (Heap.keeping p) history fuel last (fun _ _ => True) s := by
  induction script generalizing last s with
  | done value => exact ⟨⟨behind, here⟩, trivial⟩
  | act action next ih =>
    have later := Ends.imp (acts.1.ends change here) (fun v s' kept => ih v (acts.2 v) behind kept)
      fun _ s' kept => (⟨behind, kept⟩ : (Heap.keeping p).leads last s')
    cases action with
    | plain action => exact later
    | opening origin enclosing => exact fun _ => later
  | call frame task next ih =>
    refine ⟨⟨behind, here⟩, fun inner entered _ => ⟨?_, fun v s' _ leads _ => ?_⟩⟩
    · exact (congrArg p (Frame.heap_enter entered)).mpr here
    · exact ih v (acts v) leads.2 leads.2

/-- **What every change of the heap keeps holds in every state of a session.** -/
theorem Course.heap_of_reached (empty : p .empty) {input : Input} {room : Option Nat} {clock : Nat}
    {commands : List Command} {s : State}
    (reached : ((Course.new input room clock).follow commands).Reached s) : p s.heap := by
  have frames : ∀ (frame : Frame) (s s' : State), (frame.leave s s').heap = s'.heap :=
    Frame.heap_leave
  have lasts : ((Course.new input room clock).follow commands).Lasts (Heap.keeping p) := by
    refine Course.lasts_of_sound input room clock commands ?_ ?_ ⟨empty, empty⟩
    · exact {
        closed := (Course.scoped input room clock commands).closed
        trans := fun _ _ _ h h' => ⟨h.1, h'.2⟩
        here := fun _ _ _ h => ⟨h, h⟩
        stays := fun _ _ h => ⟨h.2, h.2⟩
        leave := fun frame s inner s' start _ ends => by
          have left : p (frame.leave s s').heap := (congrArg p (frames frame s s')).mpr ends.2
          exact ⟨⟨start.1, left⟩, ⟨ends.2, left⟩⟩
        obeys := fun fuel task s _ h =>
          (Task.acts_script Eval.Develops.laws task).obeys change h h }
    · exact {
        same := fun s s' h _ heap _ => ⟨h.1, (congrArg p heap).mpr h.1⟩
        top := fun _ _ _ _ leads => leads.2 }
  cases reached with
  | last => exact lasts.state.1
  | begins begun => exact (lasts.settles _ _ _ begun).1.2.1
  | ends begun => exact (lasts.settles _ _ _ begun).2.1

end Keeping

/-! ## 2. Texts -/

section Session

variable {input : Input} {room : Option Nat} {clock : Nat} {commands : List Command}

/-- **The text of a value elides exactly the cycles.**  In every state of a session the text of a
value is its rendering in which just those collections are elided that are inside themselves, and
there is no other such rendering.  In it, every occurrence of a collection has a text: the elided
one if the same instance is one of the collections around it, else the texts of its elements; and if
it does not lead back to a collection around it, that is its text as a value of its own, however
often it occurs.  The rendering without any elision comes to an end exactly if there is no cycle in
the value, and then it is the text. -/
theorem text_elides_exactly_cycles {s : State}
    (reached : ((Course.new input room clock).follow commands).Reached s) (value : Value) :
    (∀ text, s.heap.Renders .cycles [] value text ↔ text = s.heap.text value) ∧
    (∀ around id listing, s.heap.Lists id listing →
      ∃ text, (∀ other, s.heap.Renders .cycles around (.inst id) other ↔ other = text) ∧
        (id ∈ around → text = listing.elided) ∧
        (id ∉ around → ∃ texts, text = listing.join texts ∧
          List.Forall₂ (s.heap.Renders .cycles (id :: around)) listing.items texts) ∧
        ((∀ outer ∈ around, ¬ Relation.ReflTransGen s.heap.Contains id outer) →
          text = s.heap.text (.inst id))) ∧
    ((∃ text, s.heap.Renders .never [] value text) ↔ s.heap.Acyclic value) ∧
    (s.heap.Acyclic value → s.heap.Renders .never [] value (s.heap.text value)) := by
  have sturdy : s.heap.Sturdy := Course.heap_of_reached (p := Heap.Sturdy)
    (fun _ _ h changed => h.change changed) Heap.sturdy_empty reached
  refine ⟨fun text => sturdy.renders_cycles_iff, fun around id listing lists => ?_, ?_, ?_⟩
  · obtain ⟨text, renders⟩ := sturdy.exists_renders around (.inst id)
    refine ⟨text, fun other => ⟨fun h => h.unique renders, fun h => h ▸ renders⟩, ?_, ?_, ?_⟩
    · exact fun inside => renders.unique (.elided lists inside)
    · exact fun outside => renders.parts lists outside
    · intro away
      exact sturdy.renders_cycles_iff.1 (renders.apart (fun _ h => absurd h List.not_mem_nil)
        fun outer h => .inr fun other same => by cases same; exact away outer h)
  · exact ⟨fun ⟨_, h⟩ => (sturdy.renders_never_iff.1 h).1,
      fun acyclic => ⟨_, sturdy.renders_never_iff.2 ⟨acyclic, rfl⟩⟩⟩
  · exact fun acyclic => sturdy.renders_never_iff.2 ⟨acyclic, rfl⟩

end Session

/-- A list that occurs twice in another one is printed twice, and the other one not inside
itself. -/
theorem shared_list_is_printed_twice :
    ∃ s, ((Course.new ⟨[], true⟩ none 0).follow
        [.run 20 "var l = [nil]; var m = [l, l]; m.append(m); print m;"]).Reached s ∧
      s.heap.Renders .cycles [] (.inst 1) "[[nil], [nil], [...]]" :=
  ⟨_, .last, ((text_elides_exactly_cycles .last (.inst 1)).1 _).2 (by decide +kernel)⟩

end Lox
