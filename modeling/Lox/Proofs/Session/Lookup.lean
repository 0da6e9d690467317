/-
# What a property of an instance stands for

Whatever programs a session runs, an instance has under a name the value that has been set last
there, by whichever expression it was reached, or else the method of the first class that declares
one along the chain of its superclasses, or nothing.  Neither the fields of other instances nor what
the names of classes stand for matters.

Main statement: `properties_are_looked_up`.
-/
import Mathlib
import Lox.Proofs.Eval.History
import Lox.Proofs.Session.BoundMethod
import Lox.Proofs.Session.Dispatch
import Lox.Proofs.Session.Formed
import Lox.Proofs.Session.Traced

namespace Lox

open Eval

/-! ## 1. The history of a session

All that happens in a session, command by command. -/

/-- What happens while a command is carried out. -/
def Session.events (session : Session) : Command → List Event
  | .run fuel source =>
    match session.accepted? source with
    | some (program, resolution) => Event.ofProgram fuel program (session.ready resolution)
    | none => []
  | _ => []

namespace Course

/-- What happens while commands are carried out, in order. -/
def history (course : Course) : List Command → List Event
  | [] => []
  | command :: rest => course.session.events command ++ (course.step command).history rest

variable {course : Course} {commands : List Command} {command : Command} {m : Moment}

/-- What has happened behind a command is what had happened before, and what happens in it. -/
theorem moments_step :
    (course.step command).past.moments m ↔
      course.past.moments m ∨ .moment m ∈ course.session.events command := by
  cases command with
  | run fuel source =>
    simp only [step, Session.events]
    cases course.session.accepted? source with
    | none => simp
    | some accepted =>
      rw [Event.mem_ofProgram]
      rfl
  | _ => simp [step, Session.events]

/-- The moments in the history of a session are those that have happened in it. -/
theorem moments_follow :
    (course.follow commands).past.moments m ↔
      course.past.moments m ∨ .moment m ∈ course.history commands := by
  induction commands generalizing course with
  | nil => simp [follow, history]
  | cons command rest ih =>
    rw [history, List.mem_append, ← or_assoc, ← moments_step]
    exact ih

/-- The heap of a session passes the events of each command. -/
theorem passes_step (aims : ∀ m, (course.step command).past.moments m → m.Aims) :
    course.session.state.heap.Passes (course.session.events command)
      (course.step command).session.state.heap := by
  cases command with
  | run fuel source =>
    cases accepted : course.session.accepted? source with
    | none =>
      simp only [Session.events, step, accepted, Session.runWith_of_none fuel accepted]
      exact .done _
    | some found =>
      simp only [moments_step] at aims
      simp only [Session.events, step, accepted, Session.runWith_of_some fuel accepted,
        Session.evaluate_snd] at aims ⊢
      refine Event.passes_ofProgram found.1 (course.session.ready found.2) fun m mem =>
        aims m (.inr (Event.mem_ofProgram.2 (Moment.during_of_mem_trace mem)))
  | _ => exact .done _

/-- The heap of a session passes its history. -/
theorem passes_history (aims : ∀ m, (course.follow commands).past.moments m → m.Aims) :
    course.session.state.heap.Passes (course.history commands)
      (course.follow commands).session.state.heap := by
  induction commands generalizing course with
  | nil => exact .done _
  | cons command rest ih =>
    refine .trans (passes_step fun m happened => aims m ?_) (ih aims)
    change ((course.step command).follow rest).past.moments m
    exact moments_follow.2 (.inl happened)

section Session

variable {input : Input} {room : Option Nat} {clock : Nat} {commands : List Command} {m : Moment}

/-- An instance that an expression gives is there. -/
theorem class_of_eval {fuel : Nat} {e : Expr} {s s' : State} {id : InstanceId}
    (begun : (Past.after input room clock commands).moments (.begins fuel (.eval e) s))
    (evaluated : eval fuel e s = .ok (.inst id) s') : ∃ cls, s'.heap.class? id = some cls := by
  have ends := Course.forms begun
  change Ends (eval fuel e s) _ _ at ends
  rw [evaluated] at ends
  obtain ⟨cls, there, -⟩ := ends.2
  exact ⟨cls, there⟩

/-- Whatever has fields in a session is there. -/
theorem aims (happened : (Past.after input room clock commands).moments m) : m.Aims := by
  unfold Moment.Aims
  split
  · rename_i fuel object property value s
    intro id s' found
    exact Option.isSome_iff_exists.2
      (class_of_eval (Course.happened happened (.single (.mk (.begins rfl)))) found)
  · trivial

/-- A task of a session passes its events. -/
theorem passes {fuel : Nat} {task : Task} {s : State}
    (begun : (Past.after input room clock commands).moments (.begins fuel task s)) :
    s.heap.Passes (task.events fuel s) (endState (task.run fuel s)).heap :=
  task.passes s fun _ mem => aims (Course.happened begun (Task.mem_trace.1 mem))

/-- The classes of a session have been declared in it, or are built in. -/
theorem makes {fuel : Nat} {e : Expr} {s s' : State} {value : Value}
    (begun : (Past.after input room clock commands).moments (.begins fuel (.eval e) s))
    (evaluated : eval fuel e s = .ok value s') {id : InstanceId} {cls level : Class}
    (there : s'.heap.class? id = some cls) (above : level ∈ cls.chain) :
    (Past.after input room clock commands).Makes s'.scopes level := by
  have expected := ((Course.traced input room clock commands).lasts _ _ _ begun).1
  have ends := (Course.fenced begun expected nofun).1
  change Ends (eval fuel e s) _ _ at ends
  rw [evaluated] at ends
  exact (ends.1.traced.within _ (.class there)).levels cls rfl level above

end Session

end Course

/-! ## 2. Reading properties

What a property stands for, as a function of the history. -/

/-- What a name stands for on an instance of a class behind some events. -/
def Property.behind (events : List Event) (cls : Class) (id : InstanceId) (name : String) :
    Option Property :=
  match Event.lastValue? id name events with
  | some value => some (.field value)
  | none => (cls.chain.findSome? (Class.own? name)).map .method

/-- What reading a property gives: a field has its value, a method is bound to the instance, and if
there is neither, there is an error. -/
def Property.Read (id : InstanceId) (name : Name) (s : State) :
    Option Property → EStateM.Result Interrupt State Value → Prop
  | some (.field held), result => result = .ok held s
  | some (.method found), result =>
    ∃ bound t, result = .ok (.callable (.bound bound)) t ∧ found.BoundTo t.scopes id bound
  | none, result => result = .error (.error ⟨.undefinedProperty name.text, name.line⟩) s

/-- Reading gives a text only from a field. -/
theorem Property.Read.eq_field {id : InstanceId} {name : Name} {s t : State} {text : String}
    {property? : Option Property}
    (read : Property.Read id name s property? (.ok (.string text) t)) :
    property? = some (.field (.string text)) := by
  rcases property? with - | held | method
  · cases read
  · cases read
    rfl
  · obtain ⟨bound, t', same, -⟩ := read
    cases same

/-- A field has been given its value. -/
theorem Property.lastValue?_of_behind {events : List Event} {cls : Class} {id : InstanceId}
    {name : String} {value : Value}
    (behind : Property.behind events cls id name = some (.field value)) :
    Event.lastValue? id name events = some value := by
  unfold Property.behind at behind
  split at behind
  · cases behind
    assumption
  · obtain ⟨method, -, same⟩ := Option.map_eq_some_iff.1 behind
    cases same

/-- A heap that has passed all events from the first one on. -/
theorem Heap.Passes.property?_eq {heap : Heap} {events : List Event}
    (h : Heap.empty.Passes events heap) {id : InstanceId} {cls : Class}
    (there : heap.class? id = some cls) (name : String) :
    heap.property? id name = Property.behind events cls id name := by
  have first : Heap.empty.field? id name = none := rfl
  have field : heap.field? id name = Event.lastValue? id name events := by
    rw [h.field?, first, Option.or_none]
  cases given : Event.lastValue? id name events with
  | some value => simp only [Heap.property?, Property.behind, field, given]
  | none => simp only [Heap.property?, Property.behind, field, given, there, Option.bind_some]

section Reading

variable {fuel : Nat} {object value : Expr} {property : Name} {id : InstanceId} {s s' : State}

/-- What a name stands for is what reading it gives. -/
theorem Eval.read_get (found : eval fuel object s = .ok (.inst id) s') :
    Property.Read id property s' (s'.heap.property? id property.text)
      (eval (fuel + 1) (.get object property) s) := by
  have read : eval (fuel + 1) (.get object property) s =
      getProperty id property.text property.line s' := by
    simp only [eval, bind_of_ok found]
  rw [read, getProperty, look_bind, Heap.property?]
  cases s'.heap.field? id property.text with
  | some held => rfl
  | none =>
    simp only [Class.findMethod?_eq]
    cases (s'.heap.class? id).bind (·.chain.findSome? (Class.own? property.text)) with
    | none => rfl
    | some method =>
      obtain ⟨bound, t, binds, boundTo⟩ := bindMethod_eq_ok id method s'
      exact ⟨bound, t, bind_of_ok binds _, boundTo⟩

/-- A field is given its value when the object and the value have been evaluated. -/
theorem Eval.eval_set_eq_ok {v : Value} {t : State}
    (h : eval (fuel + 1) (.set object property value) s = .ok v t) :
    ∃ id s₁ s₂, eval fuel object s = .ok (.inst id) s₁ ∧ eval fuel value s₁ = .ok v s₂ ∧
      t = { s₂ with heap := s₂.heap.setField id property.text v } := by
  cases found : eval fuel object s with
  | error interrupt s₁ =>
    simp only [eval, bind_of_error found] at h
    cases h
  | ok receiver s₁ =>
    cases receiver with
    | inst id =>
      rw [eval_set_of_inst found] at h
      obtain ⟨v', s₂, given, h⟩ := bind_eq_ok h
      cases h
      exact ⟨id, s₁, s₂, rfl, given, rfl⟩
    | _ =>
      simp only [eval, bind_of_ok found] at h
      cases h

/-- A result with another heap. -/
def Eval.withHeap {α : Type} (heap : Heap) :
    EStateM.Result Interrupt State α → EStateM.Result Interrupt State α
  | .ok v t => .ok v { t with heap := heap }
  | .error interrupt t => .error interrupt { t with heap := heap }

/-- An evaluation does not look at instances. -/
def Eval.IgnoresHeap {α : Type} (x : Eval α) : Prop :=
  ∀ (s : State) (heap : Heap), x { s with heap := heap } = withHeap heap (x s)

/-- A failure does not look at the heap. -/
theorem Eval.ignoresHeap_fail {α : Type} (cause : RuntimeCause) (line : Nat) :
    IgnoresHeap (fail cause line : Eval α) :=
  fun _ _ => rfl

/-- Nor does binding a method, which makes a scope. -/
theorem Eval.ignoresHeap_bindMethod (receiver : InstanceId) (method : Method) :
    IgnoresHeap (do return .callable (.bound (← bindMethod receiver method)) : Eval Value) := by
  intro s heap
  cases method <;> rfl

/-- A `super` does not look at instances. -/
theorem Eval.ignoresHeap_super (fuel : Nat) (node : Id) (line : Nat) (name : Name) :
    IgnoresHeap (eval (fuel + 1) (.super node line name)) := by
  intro s heap
  have later : ∀ x : Eval Value, IgnoresHeap x → x { s with heap := heap } = withHeap heap (x s) :=
    fun x ignores => ignores s heap
  rw [eval_super, superMethod, look_bind, look_bind]
  refine later _ ?_
  split
  · split
    · split
      · exact ignoresHeap_bindMethod _ _
      · exact ignoresHeap_fail _ _
    all_goals exact ignoresHeap_fail _ _
  · exact ignoresHeap_fail _ _

/-- A call of a class gives a new instance of it. -/
theorem Eval.apply_class_eq_ok {cls : Class} {arguments : List Value} {line : Nat} {v : Value}
    {t : State} (h : apply (fuel + 1) (.class cls) arguments line s = .ok v t) :
    v = .inst s.heap.instances.size ∧ t.heap.class? s.heap.instances.size = some cls := by
  have there : (s.heap.add cls none).2.class? s.heap.instances.size = some cls := by
    rw [Heap.class?_add, if_pos rfl]
  simp only [apply] at h
  obtain ⟨id, s₁, made, h⟩ := bind_eq_ok h
  cases made
  cases initializer : cls.findMethod? initializerName with
  | none =>
    simp only [initializer] at h
    cases h
    exact ⟨rfl, there⟩
  | some method =>
    simp only [initializer] at h
    obtain ⟨bound, s₂, binds, h⟩ := bind_eq_ok h
    obtain ⟨answer, s₃, initialized, h⟩ := bind_eq_ok h
    cases h
    obtain ⟨_, _, binds', same, -⟩ := bindMethod_bound s.heap.instances.size method
      { s with heap := (s.heap.add cls none).2 }
    cases binds.symm.trans binds'
    have developed := (Task.develops_run fuel (.applyMethod bound arguments line) s₂).heap
    rw [same] at developed
    rw [Task.run, initialized] at developed
    exact ⟨rfl, developed.class? there⟩

end Reading

/-! ## 3. Binding names

Assignments and declarations change what names stand for, and nothing in the heap. -/

/-- Between two states only one name has come to stand for something else, and new scopes may have
been made. -/
structure State.Rebinds (name : String) (s s' : State) : Prop where
  heap : s'.heap = s.heap
  size : s.scopes.all.size ≤ s'.scopes.all.size
  others : ∀ scope other, scope < s.scopes.all.size → other ≠ name →
    s'.scopes.get? scope other = s.scopes.get? scope other

namespace State.Rebinds

variable {name : String} {s s' s'' : State}

/-- Where scopes and heap are the same no name is bound anew. -/
theorem of_same (heap : s'.heap = s.heap) (scopes : s'.scopes = s.scopes) : s.Rebinds name s' :=
  ⟨heap, by rw [scopes], fun _ _ _ _ => by rw [scopes]⟩

/-- Names that are bound anew over two stretches. -/
theorem trans (h : s.Rebinds name s') (h' : s'.Rebinds name s'') : s.Rebinds name s'' where
  heap := h'.heap.trans h.heap
  size := Nat.le_trans h.size h'.size
  others scope other lt unlike :=
    (h'.others scope other (Nat.lt_of_lt_of_le lt h.size) unlike).trans
      (h.others scope other lt unlike)

/-- To define a name binds it anew, and no other one. -/
theorem define (s : State) (scope : ScopeId) (name : String) (value : Value) :
    s.Rebinds name { s with scopes := s.scopes.define scope name value } where
  heap := rfl
  size := Nat.le_of_eq (Scopes.size_define ..).symm
  others other name' _ unlike := by
    rw [Scopes.get?_define, if_neg fun same => unlike same.2.1.symm]

end State.Rebinds

/-- An evaluation lets one name stand for something else, and does no more than that. -/
def Eval.Binds (name : String) {α : Type} (x : Eval α) : Prop :=
  ∀ s : State, s.Rebinds name (endState (x s))

namespace Eval.Binds

variable {α β : Type} {name : String}

/-- To look at the state binds nothing. -/
theorem of_looks {x : Eval α} (looks : Looks x) : Binds name x :=
  fun s => (looks s).symm ▸ .of_same rfl rfl

/-- What two acts bind, one after the other. -/
theorem bind {x : Eval α} {f : α → Eval β} (hx : Binds name x)
    (hf : ∀ value, Binds name (f value)) : Binds name (x >>= f) := by
  intro s
  have first := hx s
  cases hs : x s with
  | error interrupt s' =>
    rw [hs] at first
    rwa [bind_of_error hs]
  | ok value s' =>
    rw [hs] at first
    rw [bind_of_ok hs]
    exact first.trans (hf value s')

theorem pure (value : α) : Binds name (Pure.pure value) := fun _ => .of_same rfl rfl

/-- An assignment binds its name anew, and no other one. -/
theorem writeVariable (target : Variable) (value : Value) :
    Binds target.name.text (Eval.writeVariable target value) := by
  intro s
  simp only [Eval.writeVariable]
  split
  · exact .define s _ _ value
  · exact .of_same rfl rfl

/-- To make the methods of a class binds nothing. -/
theorem newMethods (scope : ScopeId) (declarations : List FunDecl) (methods : Bindings Closure) :
    Binds name (Eval.newMethods scope declarations methods) := by
  intro s
  obtain ⟨found, stamp, made, -⟩ := newMethods_last scope declarations methods s
  rw [made]
  exact .of_same rfl rfl

/-- The scope for `super` is a new one. -/
theorem methodScope (superclass : Option Class) : Binds name (Eval.methodScope superclass) := by
  intro s
  cases superclass with
  | none => exact .of_same rfl rfl
  | some superclass =>
    refine ⟨rfl, ?_, fun scope other lt _ => ?_⟩
    · change _ ≤ ((s.scopes.add (some s.scope)).2.define s.scopes.all.size _ _).all.size
      rw [Scopes.size_define, Scopes.size_add]
      exact Nat.le_succ _
    · change ((s.scopes.add (some s.scope)).2.define s.scopes.all.size _ _).get? scope other = _
      rw [Scopes.get?_define, if_neg fun same => Nat.ne_of_gt lt same.1, Scopes.get?_add]

/-- A class declaration binds its name, and leaves the heap alone. -/
theorem declareClass (name : Name) (superclass : Option Class) (methods : List FunDecl) :
    Binds name.text (Eval.declareClass name superclass methods) :=
  .bind (fun s => .define s _ _ _) fun _ => .bind (methodScope superclass) fun scope =>
    .bind (fun _ => .of_same rfl rfl) fun _ => .bind (newMethods scope methods .empty) fun _ s =>
      .define s _ _ _

/-- Declaring a class binds its name. -/
theorem classDecl (fuel : Nat) (name : Name) (superclass : Option Variable)
    (methods : List FunDecl) :
    Binds name.text (exec fuel (.classDecl name superclass methods)) := by
  cases fuel with
  | zero =>
    simp only [exec]
    exact fun _ => .of_same rfl rfl
  | succ fuel =>
    have declared := fun found : Option Class =>
      bind (declareClass name found methods) fun _ => pure Completion.normal
    cases superclass with
    | none =>
      simp only [exec, pure_bind]
      exact declared none
    | some v =>
      have evaluated : Binds name.text (eval fuel (.variable v)) := by
        cases fuel with
        | zero =>
          simp only [eval]
          exact fun _ => .of_same rfl rfl
        | succ fuel => exact eval_variable fuel v ▸ .of_looks (Looks.plain.readVariable _ _ _)
      simp only [exec]
      exact .bind (.bind (.bind evaluated fun _ => .of_looks (Looks.plain.superclassOf _ _))
        fun _ => pure _) declared

end Eval.Binds

section Assignment

variable {fuel : Nat} {target : Variable} {value : Expr} {name : Name} {v : Value} {s s' : State}

/-- Assigning a value binds the name, once the value has been evaluated. -/
theorem Eval.rebinds_assign (found : eval fuel value s = .ok v s') :
    s'.Rebinds target.name.text (endState (eval (fuel + 1) (.assign target value) s)) := by
  simp only [eval, bind_of_ok found]
  exact Binds.bind (.writeVariable target v) (fun _ => .pure v) s'

/-- So does declaring a variable. -/
theorem Eval.rebinds_varDecl (found : eval fuel value s = .ok v s') :
    s'.Rebinds name.text (endState (exec (fuel + 2) (.varDecl name (some value)) s)) := by
  simp only [exec, evalOptional, bind_of_ok found]
  exact .define s' _ _ v

end Assignment

/-! ## 4. Properties in a session

The parts are put together for every state that a session comes to. -/

section Session

variable (input : Input) (room : Option Nat) (clock : Nat) (commands : List Command)

/-- **Properties are looked up on the instance and then along the chain of its class.**

* The history of a session holds its moments, and a field that is given a value is in it behind all
  that happens in the expression.
* Wherever a property is read, it is the value that the field has been given last on this instance,
  by whichever expression.  If there is none, it is the method of the first class that declares one
  along the chain, bound to the instance.  If there is neither, there is an error.
* A class on the chain is built in or has been declared; of the methods in the declaration that have
  the same name it has the last one.
* Whatever a task does, the instances that there are keep their classes, and a property stands for
  what it did before if this very field has not been given a value.
* To give a field a value changes no other property of any instance, and no variable.  To declare a
  class, to assign a value and to declare a variable change no instance at all, and no variable of
  another name, so none that holds a subclass.  What a `super` gives does not depend on instances,
  and a call of a class gives an instance of this class, whatever its name stands for.
* The chain goes from each class to its superclass, up to one without, and no class is on it
  twice. -/
theorem properties_are_looked_up :
    let history := (Course.new input room clock).history commands
    let past := Past.after input room clock commands
    (∀ m, past.moments m ↔ .moment m ∈ history) ∧
    (∀ before after fuel object property s id s',
      history = before ++ .moment (.begins (fuel + 1) (.eval (.get object property)) s) :: after →
      eval fuel object s = .ok (.inst id) s' →
      ∃ cls, s'.heap.class? id = some cls ∧
        (∀ level ∈ cls.chain, past.Makes s'.scopes level) ∧
        Property.Read id property s'
          (Property.behind (before ++ (Task.eval object).events fuel s) cls id property.text)
          (eval (fuel + 1) (.get object property) s)) ∧
    (∀ fuel task s, past.moments (.begins fuel task s) →
      ∀ id cls, s.heap.class? id = some cls →
        (endState (task.run fuel s)).heap.class? id = some cls ∧
        ∀ name, Event.lastValue? id name (task.events fuel s) = none →
          (endState (task.run fuel s)).heap.property? id name = s.heap.property? id name) ∧
    (∀ fuel object property value s v t,
      eval (fuel + 1) (.set object property value) s = .ok v t →
      ∃ id s₁ s₂, eval fuel object s = .ok (.inst id) s₁ ∧ eval fuel value s₁ = .ok v s₂ ∧
        t = { s₂ with heap := s₂.heap.setField id property.text v } ∧
        (Task.eval (.set object property value)).events (fuel + 1) s =
          .moment (.begins (fuel + 1) (.eval (.set object property value)) s) ::
            ((Task.eval object).events fuel s ++ ((Task.eval value).events fuel s₁ ++
              [.write ⟨id, property.text, v⟩])) ∧
        (∀ other name, ¬ (id = other ∧ property.text = name) →
          t.heap.property? other name = s₂.heap.property? other name) ∧
        ∀ other, t.heap.class? other = s₂.heap.class? other) ∧
    (∀ fuel name superclass methods (s : State),
      s.Rebinds name.text (endState (exec fuel (.classDecl name superclass methods) s))) ∧
    (∀ fuel target name value s v s', eval fuel value s = .ok v s' →
      s'.Rebinds target.name.text (endState (eval (fuel + 1) (.assign target value) s)) ∧
      s'.Rebinds name.text (endState (exec (fuel + 2) (.varDecl name (some value)) s))) ∧
    (∀ fuel node line name s heap, eval (fuel + 1) (.super node line name) { s with heap := heap } =
      withHeap heap (eval (fuel + 1) (.super node line name) s)) ∧
    (∀ fuel cls arguments line s v t, apply (fuel + 1) (.class cls) arguments line s = .ok v t →
      v = .inst s.heap.instances.size ∧ t.heap.class? s.heap.instances.size = some cls) ∧
    ∀ cls : Class, cls.chain[0]? = some cls ∧
      (∀ k, cls.chain[k + 1]? = cls.chain[k]?.bind Class.superclass?) ∧ cls.chain.Nodup := by
  intro history past
  have happened : ∀ m, past.moments m ↔ .moment m ∈ history := fun m =>
    Course.moments_follow.trans (or_iff_right id)
  refine ⟨happened, ?read, ?kept, ?set, fun _ _ _ _ => Binds.classDecl _ _ _ _, ?assigned,
    fun fuel node line name => ignoresHeap_super fuel node line name,
    fun _ _ _ _ _ _ _ => apply_class_eq_ok, ?chain⟩
  case read =>
    intro before after fuel object property s id s' split evaluated
    have begun := (happened _).2 (split ▸ List.mem_append_right _ List.mem_cons_self)
    have inner : past.moments (.begins fuel (.eval object) s) :=
      Course.happened begun (.single (.mk (.begins rfl)))
    obtain ⟨cls, there⟩ := Course.class_of_eval inner evaluated
    refine ⟨cls, there, fun level above => Course.makes inner evaluated there above, ?_⟩
    have all : (Course.new input room clock).session.state.heap.Passes history
        ((Course.new input room clock).follow commands).session.state.heap :=
      Course.passes_history fun m => Course.aims
    rw [split] at all
    have first : Heap.empty.Passes before s.heap := all.upTo
    have inside : s.heap.Passes _ (endState (eval fuel object s)).heap := Course.passes inner
    rw [evaluated] at inside
    rw [← (first.trans inside).property?_eq there]
    exact read_get evaluated
  case kept =>
    intro fuel task s begun id cls there
    have passed := Course.passes begun
    exact ⟨passed.class? there, fun name unset => passed.property? there unset⟩
  case set =>
    intro fuel object property value s v t given
    obtain ⟨id, s₁, s₂, found, evaluated, rfl⟩ := eval_set_eq_ok given
    refine ⟨id, s₁, s₂, found, evaluated, rfl, ?_, fun other name unlike => ?_, fun other => ?_⟩
    · rw [Task.events_set, found]
      simp only [evaluated]
    · exact Heap.property?_setField_of_ne s₂.heap v unlike
    · exact Heap.class?_setField ..
  case assigned =>
    intro fuel target name value s v s' evaluated
    exact ⟨rebinds_assign evaluated, rebinds_varDecl evaluated⟩
  case chain =>
    intro cls
    refine ⟨?_, cls.getElem?_chain_succ, cls.nodup_chain⟩
    cases cls <;> rfl

end Session

/-! ## 5. A field before a method

A session in which a field hides a method. -/

namespace Shadowed

/-- A class declares a method twice, and a class below inherits it.  Under another variable an
instance is given a field of that name, when the names of the classes stand for something else. -/
def text : String :=
  "class A \x7b m() \x7b\x7d m(a) \x7b\x7d \x7d class B < A \x7b\x7d var o = B(); var p = o; " ++
  "A = nil; B = nil; p.m = \"s\"; o.m;"

/-- What the text says. -/
def program : List Stmt :=
  [.classDecl ⟨"A", 1⟩ none [⟨⟨"m", 1⟩, [], []⟩, ⟨⟨"m", 1⟩, [⟨"a", 1⟩], []⟩],
    .classDecl ⟨"B", 1⟩ (some ⟨0, ⟨"A", 1⟩⟩) [],
    .varDecl ⟨"o", 1⟩ (some (.call (.variable ⟨1, ⟨"B", 1⟩⟩) [] 1)),
    .varDecl ⟨"p", 1⟩ (some (.variable ⟨2, ⟨"o", 1⟩⟩)),
    .expression (.assign ⟨4, ⟨"A", 1⟩⟩ (.literal .nil)),
    .expression (.assign ⟨6, ⟨"B", 1⟩⟩ (.literal .nil)),
    .expression (.set (.variable ⟨7, ⟨"p", 1⟩⟩) ⟨"m", 1⟩ (.literal (.string "s"))),
    .expression (.get (.variable ⟨8, ⟨"o", 1⟩⟩) ⟨"m", 1⟩)]

/-- What has happened once it has run. -/
def history : List Event := (Course.new ⟨[], true⟩ none 0).history [.run 30 text]

/-- Whether the class of an instance has a method with one parameter. -/
def hasUnary (heap : Heap) (id : InstanceId) (name : String) : Bool :=
  ((heap.class? id).bind (·.chain.findSome? (Class.own? name))).any (·.arity == 1)

/-- Whether a property is read that is the text of the field, and that could be the method. -/
def readsField : Moment → Bool
  | .begins (fuel + 1) (.eval (.get object property)) s =>
    match Eval.eval fuel object s, Eval.eval (fuel + 1) (.get object property) s with
    | .ok (.inst id) s', .ok (.string text) _ =>
      hasUnary s'.heap id property.text && text == "s"
    | _, _ => false
  | _ => false

end Shadowed

/-- The instance has the field that it was given under the other variable, and would have the second
method. -/
theorem field_before_method :
    ∃ before after fuel object property s id s' cls,
      Shadowed.history =
        before ++ .moment (.begins (fuel + 1) (.eval (.get object property)) s) :: after ∧
      eval fuel object s = .ok (.inst id) s' ∧ s'.heap.class? id = some cls ∧
      (cls.chain.findSome? (Class.own? property.text)).any (·.arity == 1) = true ∧
      Event.lastValue? id property.text (before ++ (Task.eval object).events fuel s) =
        some (.string "s") := by
  obtain ⟨happened, reads, -⟩ :=
    properties_are_looked_up ⟨[], true⟩ none 0 [.run 30 Shadowed.text]
  obtain ⟨m, hm, hp⟩ := Course.moment_of_trace (.new ⟨[], true⟩ none 0) 30 Shadowed.text
    Shadowed.program (by cbv) Shadowed.readsField (by decide +kernel)
  obtain ⟨before, after, split⟩ := List.append_of_mem ((happened m).1 hm)
  unfold Shadowed.readsField at hp
  split at hp
  · rename_i fuel object property s
    split at hp
    · rename_i id s' text t found answer
      obtain ⟨cls, there, -, read⟩ := reads before after fuel object property s id s' split found
      simp only [Shadowed.hasUnary, there, Option.bind_some, Bool.and_eq_true, beq_iff_eq] at hp
      obtain ⟨unary, rfl⟩ := hp
      refine ⟨before, after, fuel, object, property, s, id, s', cls, split, found, there, unary, ?_⟩
      exact Property.lastValue?_of_behind (Property.Read.eq_field (answer ▸ read))
    · cases hp
  · cases hp

end Lox
