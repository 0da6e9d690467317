/-
# Every construct keeps the register

One lemma for each kind of task, with one case for each construct: whatever values a task is given,
it brings up none that the register does not have by then, in the state or as its answer.
`registering_sound` puts the lemmas together.
-/
import Lox.Proofs.Eval.Register

namespace Lox

section Registering

variable {r : Register} {s : State}

/-- A single value is found in the register. -/
theorem Value.allRegistered_singleton {value : Value} (h : value.Registered r) :
    AllRegistered r [value] := by
  intro other mem
  rwa [List.mem_singleton.1 mem]

theorem Value.allRegistered_cons {value : Value} {values : List Value} (h : value.Registered r)
    (h' : AllRegistered r values) : AllRegistered r (value :: values) := by
  intro other mem
  rcases List.mem_cons.1 mem with rfl | mem
  · exact h
  · exact h' other mem

/-- Data, instances and what is built in have no stamp. -/
theorem Value.allRegistered_plain {value : Value} (h : value.making? = none) :
    AllRegistered r [value] :=
  allRegistered_singleton (registered_of_making?_eq_none h)

theorem Value.registered_of_told {value : Value} (h : AllRegistered r [value]) :
    value.Registered r :=
  h value List.mem_cons_self

namespace Task

open Script Eval Value

/-- What a script answers with is found in the register. -/
abbrev Told (task : Task) (r : Register) (answer : task.Answer) (_ : State) : Prop :=
  AllRegistered r (task.answered answer)

variable (known : s.Registered r)

include known

/-! ## 1. Expressions -/

theorem registers_evalScript (e : Expr) : (evalScript e).Registers (eval e).Told r s := by
  have harmless := Value.harmless_registered
  have single : ∀ {r : Register} {value : Value} {s' : State}, Rearranges.Good (Registered r) value s' →
      (eval e).Told r value s' := allRegistered_singleton
  cases e with
  | literal value => exact learns_pure known (allRegistered_plain (by cases value <;> rfl))
  | grouping inner => exact registers_perform known allRegistered_nil fun _ _ _ _ _ told => told
  | unary op line operand =>
    refine learns_bind (registers_perform known allRegistered_nil fun r₁ v s₁ _ known₁ _ => ?_)
    exact registers_rearranging known₁ (.unary (harmless _) known₁.within _ _ _)
      (Develops.laws.unary _ _ _) fun _ _ _ => single
  | binary op line left right =>
    refine learns_bind (registers_perform known allRegistered_nil fun r₁ v s₁ _ known₁ _ => ?_)
    refine learns_bind (registers_perform known₁ allRegistered_nil fun r₂ v' s₂ _ known₂ _ => ?_)
    exact registers_rearranging known₂ (.binary (harmless _) known₂.within _ _ _ _)
      (Develops.laws.binary _ _ _ _) fun _ _ _ => single
  | logical op line left right =>
    refine learns_bind (registers_perform known allRegistered_nil fun r₁ v s₁ _ known₁ told => ?_)
    split
    · exact learns_pure known₁ told
    · exact registers_perform known₁ allRegistered_nil fun _ _ _ _ _ told => told
  | «variable» v =>
    exact registers_rearranging known (.readVariable known.within _ _ _)
      (Develops.laws.readVariable _ _ _) fun _ _ _ => single
  | assign target value =>
    refine learns_bind (registers_perform known allRegistered_nil fun r₁ v s₁ _ known₁ told => ?_)
    exact learns_bind (registers_writeVariable known₁ target (registered_of_told told)
      fun s₂ known₂ => learns_pure known₂ told)
  | call callee arguments line =>
    refine learns_bind (registers_perform known allRegistered_nil fun r₁ v s₁ _ known₁ told => ?_)
    refine learns_bind (registers_perform known₁ allRegistered_nil fun r₂ values s₂ le known₂ told' => ?_)
    have given : AllRegistered r₂ (Task.call v values line).values :=
      allRegistered_cons ((registered_of_told told).mono le) told'
    exact registers_perform known₂ given fun _ _ _ _ _ told => told
  | get object property =>
    refine learns_bind (registers_perform known allRegistered_nil fun r₁ v s₁ _ known₁ _ => ?_)
    split
    · exact (registers_getProperty known₁ _ _ _).imp fun _ _ _ _ h => single h.2.1
    · exact learns_fail known₁
  | set object property value =>
    refine learns_bind (registers_perform known allRegistered_nil fun r₁ v s₁ _ known₁ _ => ?_)
    split
    · refine learns_bind (registers_perform known₁ allRegistered_nil fun r₂ v' s₂ _ known₂ told => ?_)
      exact learns_bind (registers_rearranging known₂
        (.setField known₂.within _ _ (registered_of_told told)) (Develops.laws.setField _ _ _)
        fun _ s₃ known₃ _ => learns_pure known₃ told)
    · exact learns_fail known₁
  | this id line =>
    exact registers_rearranging known (.readVariable known.within _ _ _)
      (Develops.laws.readVariable _ _ _) fun _ _ _ => single
  | super id line method =>
    exact (registers_superMethod known _ _ _).imp fun _ _ _ _ h => single h.2.1
  | list line elements =>
    refine learns_bind (registers_perform known allRegistered_nil fun r₁ values s₁ _ known₁ told => ?_)
    exact registers_rearranging known₁ (.newList (harmless _) known₁.within told)
      (Develops.laws.newList _) fun _ _ _ => single

/-! ## 2. Calls -/

theorem registers_callScript {callee : Value} {arguments : List Value}
    (given : AllRegistered r (callee :: arguments)) (line : Nat) :
    (callScript callee arguments line).Registers
      (fun r' value _ => AllRegistered r' [value]) r s := by
  unfold callScript
  split
  · split
    · exact ⟨known, given, fun r' value s' _ known' told => ⟨known', told⟩⟩
    · exact learns_fail known
  · exact learns_fail known

theorem registers_applyScript {callable : Callable} {arguments : List Value}
    (given : AllRegistered r (.callable callable :: arguments)) (line : Nat) :
    (applyScript callable arguments line).Registers
      (fun r' value _ => AllRegistered r' [value]) r s := by
  have arguments_given : AllRegistered r arguments :=
    fun value mem => given value (List.mem_cons_of_mem _ mem)
  cases callable with
  | builtin function =>
    exact registers_rearranging known
      (.callFunction (harmless_registered r) known.within _ _ _)
      (Develops.laws.callFunction _ _ _) fun _ _ _ => allRegistered_singleton
  | closure closure =>
    have given : AllRegistered r (Task.applyClosure closure arguments).values := arguments_given
    exact registers_perform known given fun _ _ _ _ _ told => told
  | bound method =>
    have given : AllRegistered r (Task.applyMethod method arguments line).values := given
    exact registers_perform known given fun _ _ _ _ _ told => told
  | «class» cls =>
    refine learns_bind (registers_rearranging known
      (.newInstance known.within cls (given _ List.mem_cons_self) none)
      (Develops.laws.newInstance cls) fun id s₁ known₁ _ => ?_)
    split
    · rename_i initializer found
      refine learns_bind ((registers_bindMethod known₁ id initializer).imp
        fun r₂ bound s₂ le h => ?_)
      obtain ⟨known₂, own, -⟩ := h
      have given' : AllRegistered r₂ (Task.applyMethod bound arguments line).values :=
        allRegistered_cons own (arguments_given.mono le)
      exact learns_bind (registers_perform known₂ given' fun _ _ _ _ known₃ _ =>
        learns_pure known₃ (allRegistered_plain rfl))
    · exact learns_pure known₁ (allRegistered_plain rfl)

theorem registers_applyClosureScript {closure : Closure} {arguments : List Value}
    (given : AllRegistered r arguments) :
    (applyClosureScript closure arguments).Registers
      (fun r' value _ => AllRegistered r' [value]) r s := by
  refine learns_bind (registers_opening known _ _ fun s₁ known₁ => ?_)
  refine learns_bind (registers_defineAll known₁ _ _ given fun s₂ known₂ => ?_)
  refine learns_bind (registers_performIn known₂ _ allRegistered_nil
    fun r₃ completion s₃ _ known₃ told => ?_)
  refine registers_rearranging known₃ (.callResult known₃.within closure ?_)
    (Develops.laws.callResult _ _) fun _ _ _ => allRegistered_singleton
  cases completion with
  | normal => exact registered_of_making?_eq_none rfl
  | returned value => exact registered_of_told told

/-! ## 3. Statements -/

/-- The iterator of a loop is one that `iterate` has given. -/
theorem registers_forEach (line : Nat) (name : Name) (iterable : Expr) (body : Stmt) :
    (execScript (.forEach line name iterable body)).Registers
      (exec (.forEach line name iterable body)).Told r s := by
  refine learns_bind (registers_perform known allRegistered_nil fun r₁ v s₁ _ known₁ _ => ?_)
  split
  · rename_i id _
    have given : AllRegistered r₁ (Task.invoke (.inst id) "iterate" [] line).values :=
      allRegistered_plain rfl
    refine learns_bind (registers_perform known₁ given fun r₂ iterator s₂ _ known₂ told => ?_)
    refine learns_bind (registers_rearranging known₂
      (.cursorFor known₂.within (registered_of_told told)) (Develops.laws.cursorFor _)
      fun cursor s₃ known₃ hcursor => ?_)
    have given' : AllRegistered r₂ (Task.forEach cursor line name body).values := by
      cases cursor with
      | direct id => exact allRegistered_plain rfl
      | protocol value => exact allRegistered_singleton (hcursor value rfl)
    exact registers_perform known₃ given' fun _ _ _ _ _ told => told
  · exact learns_fail known₁

/-- A function that is declared gets an entry. -/
theorem registers_funDecl (declaration : FunDecl) :
    (execScript (.funDecl declaration)).Registers (exec (.funDecl declaration)).Told r s := by
  have normal : ∀ {r : Register} {s' : State},
      (exec (.funDecl declaration)).Told r .normal s' := allRegistered_nil
  -- the function gets its entry as soon as it has its stamp
  let closure : Closure := ⟨s.stamp, declaration, s.scope, false⟩
  obtain ⟨le, known₁⟩ := State.Registered.make (s := { s with stamp := s.stamp + 1 })
    known.within known.below (Nat.lt_succ_self _) (.closure closure)
  have bound : (do
      doing (Eval.define declaration.name.text (.callable (.closure closure)))
      return Completion.normal : Script Completion).Registers (exec (.funDecl declaration)).Told
        (r.insert s.stamp (.closure closure)) { s with stamp := s.stamp + 1 } :=
    learns_bind (registers_define known₁ _ (registered_insert rfl)
      fun s₂ known₂ => learns_pure known₂ normal)
  exact learns_bind (learns_doing ⟨_, le, known₁, bound⟩)

/-- So does a class, behind its superclass. -/
theorem registers_classDecl (name : Name) (superclass : Option Variable) (methods : List FunDecl) :
    (execScript (.classDecl name superclass methods)).Registers
      (exec (.classDecl name superclass methods)).Told r s := by
  have normal : ∀ {r : Register} {s' : State},
      (exec (.classDecl name superclass methods)).Told r .normal s' := allRegistered_nil
  cases superclass with
  | none =>
    exact learns_bind (learns_pure known (learns_bind
      ((registers_declareClass known name (fun _ h => by cases h) methods).imp fun _ _ _ _ known₁ =>
        learns_pure known₁ normal)))
  | some parent =>
    refine learns_bind (registers_perform known allRegistered_nil
      fun r₁ v s₁ _ known₁ told => ?_)
    have finds : (doing (Eval.superclassOf parent.name v)).Registers
        (fun r' cls s' => s'.Registered r' ∧ (Value.callable (.class cls)).Registered r') r₁
        s₁ := by
      unfold Eval.superclassOf
      split
      · exact learns_staying ⟨known₁, known₁, registered_of_told told⟩
      · exact learns_fail known₁
    refine learns_bind (finds.imp fun r₂ cls s₂ _ h => ?_)
    obtain ⟨known₂, own⟩ := h
    have above : ∀ found ∈ some cls, (Value.callable (.class found)).Registered r₂ := by
      rintro _ ⟨⟩
      exact own
    exact learns_bind (learns_pure known₂ (learns_bind
      ((registers_declareClass known₂ name above methods).imp fun _ _ _ _ known₃ =>
        learns_pure known₃ normal)))

theorem registers_execScript (st : Stmt) : (execScript st).Registers (exec st).Told r s := by
  have normal : ∀ {r : Register} {s' : State}, (exec st).Told r .normal s' := allRegistered_nil
  cases st with
  | print line value =>
    refine learns_bind (registers_perform known allRegistered_nil fun r₁ v s₁ _ known₁ _ => ?_)
    exact learns_bind (registers_rearranging known₁ (.printValue known₁.within _ _)
      (Develops.laws.printValue _ _) fun _ s₂ known₂ _ => learns_pure known₂ normal)
  | expression value =>
    exact learns_bind (registers_perform known allRegistered_nil fun _ _ _ _ known₁ _ =>
      learns_pure known₁ normal)
  | varDecl name initializer =>
    refine learns_bind (registers_perform known allRegistered_nil fun r₁ v s₁ _ known₁ told => ?_)
    exact learns_bind (registers_define known₁ _ (registered_of_told told)
      fun s₂ known₂ => learns_pure known₂ normal)
  | block body =>
    refine learns_bind (registers_openScope known _ fun scope s₁ known₁ => ?_)
    exact registers_performIn known₁ _ allRegistered_nil fun _ _ _ _ _ told => told
  | ifElse condition thenBranch elseBranch =>
    refine learns_bind (registers_perform known allRegistered_nil fun r₁ v s₁ _ known₁ _ => ?_)
    split
    · exact registers_perform known₁ allRegistered_nil fun _ _ _ _ _ told => told
    · split
      · exact registers_perform known₁ allRegistered_nil fun _ _ _ _ _ told => told
      · exact learns_pure known₁ normal
  | whileLoop condition body =>
    exact registers_perform known allRegistered_nil fun _ _ _ _ _ told => told
  | forEach line name iterable body => exact registers_forEach known line name iterable body
  | funDecl declaration => exact registers_funDecl known declaration
  | ret line value =>
    exact learns_bind (registers_perform known allRegistered_nil fun _ _ _ _ known₁ told =>
      learns_pure known₁ told)
  | classDecl name superclass methods => exact registers_classDecl known name superclass methods

theorem registers_forEachScript {cursor : Cursor} (given : AllRegistered r cursor.values)
    (line : Nat) (name : Name) (body : Stmt) :
    (forEachScript cursor line name body).Registers
      (fun r' completion _ => AllRegistered r' completion.values) r s := by
  have asks : AllRegistered r (Task.cursorHasItems cursor line).values := given
  refine learns_bind (registers_perform known asks fun r₁ more s₁ le₁ known₁ _ => ?_)
  split
  · refine learns_bind (registers_openScope known₁ _ fun scope s₂ known₂ => ?_)
    have looks : AllRegistered r₁ (Task.cursorCurrent cursor line).values := given.mono le₁
    refine learns_bind (registers_perform known₂ looks fun r₃ value s₃ le₃ known₃ told => ?_)
    refine learns_bind (registers_defineIn known₃ _ _ (registered_of_told told)
      fun s₄ known₄ => ?_)
    refine learns_bind (registers_performIn known₄ _ allRegistered_nil
      fun r₅ completion s₅ le₅ known₅ told' => ?_)
    cases completion with
    | returned value => exact learns_pure known₅ told'
    | normal =>
      have le : r ≤ r₅ := le_trans le₁ (le_trans le₃ le₅)
      have steps : AllRegistered r₅ (Task.cursorAdvance cursor line).values := given.mono le
      refine learns_bind (registers_perform known₅ steps fun r₆ _ s₆ le₆ known₆ _ => ?_)
      have again : AllRegistered r₆ (Task.forEach cursor line name body).values :=
        given.mono (le_trans le le₆)
      exact registers_perform known₆ again fun _ _ _ _ _ told => told
  · exact learns_pure known₁ allRegistered_nil

/-! ## 4. All tasks -/

/-- A built-in method gives back what it has been given, or what the heap holds. -/
theorem registers_applyMethod {method : BoundMethod} {arguments : List Value} {line : Nat}
    (given : AllRegistered r (Task.applyMethod method arguments line).values) :
    (Task.applyMethod method arguments line).script.Registers
      (Task.applyMethod method arguments line).Told r s := by
  have arguments_given : AllRegistered r arguments :=
    fun value mem => given value (List.mem_cons_of_mem _ mem)
  obtain ⟨receiver, method⟩ := method
  cases method with
  | builtin method =>
    exact registers_rearranging known
      (.callMethod (harmless_registered r) known.within _ _ arguments_given _)
      (Develops.laws.callMethod _ _ _ _) fun _ _ _ => allRegistered_singleton
  | declared closure =>
    have given : AllRegistered r (Task.applyClosure closure arguments).values := arguments_given
    exact registers_perform known given fun _ _ _ _ _ told => told

/-- What is called is what the property of the receiver is. -/
theorem registers_invoke {receiver : Value} {name : String} {arguments : List Value} {line : Nat}
    (given : AllRegistered r (Task.invoke receiver name arguments line).values) :
    (Task.invoke receiver name arguments line).script.Registers
      (Task.invoke receiver name arguments line).Told r s := by
  have arguments_given : AllRegistered r arguments :=
    fun value mem => given value (List.mem_cons_of_mem _ mem)
  cases receiver with
  | inst id =>
    refine learns_bind ((registers_getProperty known id name line).imp
      fun r₁ value s₁ le h => ?_)
    obtain ⟨known₁, own, -⟩ := h
    have given' : AllRegistered r₁ (Task.call value arguments line).values :=
      allRegistered_cons own (arguments_given.mono le)
    exact registers_perform known₁ given' fun _ _ _ _ _ told => told
  | _ => exact learns_fail known

/-- A loop goes on from whatever state a turn has left. -/
theorem registers_whileLoop (condition : Expr) (body : Stmt) :
    (Task.whileLoop condition body).script.Registers (Task.whileLoop condition body).Told r s := by
  refine learns_bind (registers_perform known allRegistered_nil fun r₁ v s₁ _ known₁ _ => ?_)
  split
  · refine learns_bind (registers_perform known₁ allRegistered_nil
      fun r₂ completion s₂ _ known₂ told => ?_)
    cases completion with
    | normal => exact registers_perform known₂ allRegistered_nil fun _ _ _ _ _ told => told
    | returned value => exact learns_pure known₂ told
  · exact learns_pure known₁ allRegistered_nil

/-- **Every script keeps the register.** -/
theorem registers_script (task : Task) (given : AllRegistered r task.values) :
    task.script.Registers task.Told r s := by
  cases task with
  | eval e => exact registers_evalScript known e
  | evalAll es =>
    cases es with
    | nil => exact learns_pure known allRegistered_nil
    | cons e es =>
      refine learns_bind (registers_perform known allRegistered_nil
        fun r₁ v s₁ _ known₁ told => ?_)
      exact learns_bind (registers_perform known₁ allRegistered_nil
        fun r₂ values s₂ le known₂ told' =>
          learns_pure known₂ (allRegistered_cons ((registered_of_told told).mono le) told'))
  | evalOptional e =>
    cases e with
    | none => exact learns_pure known (allRegistered_plain rfl)
    | some e => exact registers_perform known allRegistered_nil fun _ _ _ _ _ told => told
  | call callee arguments line => exact registers_callScript known given line
  | apply callable arguments line => exact registers_applyScript known given line
  | applyMethod method arguments line => exact registers_applyMethod known given
  | applyClosure closure arguments => exact registers_applyClosureScript known given
  | invoke receiver name arguments line => exact registers_invoke known given
  | exec st => exact registers_execScript known st
  | execAll body =>
    cases body with
    | nil => exact learns_pure known allRegistered_nil
    | cons st rest =>
      refine learns_bind (registers_perform known allRegistered_nil
        fun r₁ completion s₁ _ known₁ told => ?_)
      cases completion with
      | normal => exact registers_perform known₁ allRegistered_nil fun _ _ _ _ _ told => told
      | returned value => exact learns_pure known₁ told
  | whileLoop condition body => exact registers_whileLoop known condition body
  | forEach cursor line name body => exact registers_forEachScript known given line name body
  | cursorHasItems cursor line =>
    cases cursor with
    | direct id =>
      exact registers_rearranging known
        (.of_looks (Eval.Looks.plain.iteratorHasItems id line) known.within)
        (Develops.laws.iteratorHasItems _ _) fun _ _ _ _ => allRegistered_nil
    | protocol iterator =>
      have given : AllRegistered r (Task.invoke iterator "hasItems" [] line).values := given
      exact learns_bind (registers_perform known given fun _ _ _ _ known₁ _ =>
        learns_pure known₁ allRegistered_nil)
  | cursorCurrent cursor line =>
    cases cursor with
    | direct id =>
      exact registers_rearranging known (.iteratorCurrent (harmless_registered r) known.within id line)
        (Develops.laws.iteratorCurrent _ _) fun _ _ _ => allRegistered_singleton
    | protocol iterator =>
      have given : AllRegistered r (Task.invoke iterator "get" [] line).values := given
      exact registers_perform known given fun _ _ _ _ _ told => told
  | cursorAdvance cursor line =>
    cases cursor with
    | direct id =>
      exact registers_rearranging known (.iteratorAdvance known.within id line)
        (Develops.laws.iteratorAdvance _ _) fun _ _ _ _ => allRegistered_nil
    | protocol iterator =>
      have given : AllRegistered r (Task.invoke iterator "move" [] line).values := given
      exact learns_bind (registers_perform known given fun _ _ _ _ known₁ _ =>
        learns_pure known₁ allRegistered_nil)

end Task

/-- **The register of a run is a lore.** -/
theorem registering_sound : registering.Sound where
  enter frame r s inner entered known := by
    cases frame with
    | same | scope id =>
      cases entered
      exact known.of_same rfl rfl (Nat.le_refl _)
    | call line =>
      simp only [Frame.enter] at entered
      split at entered <;> cases entered
      exact known.of_same rfl rfl (Nat.le_refl _)
  leave frame r s s' known := by
    cases frame <;> exact State.Registered.of_same known rfl rfl (Nat.le_refl _)
  learns task r s known given := Task.registers_script known task given

end Registering

end Lox
