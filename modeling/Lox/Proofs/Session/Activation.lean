/-
# Every activation has its own variables

The body of a block, the body of a function that is called and the turn of a `foreach` loop begin in
a scope that has been made for them and to which nothing leads that there was before
(`Moment.Activates`).  What leads there later has been made inside, so the scope is left alone by
whatever neither is in it nor runs such a function.

Code in an activation reads and writes variables of the scopes around the current one, and no two of
these have been made for the same construct (`State.Ready.separates`).  So it never gets to the
variables of another turn of the same loop or of another call of the same function
(`Course.leads_into_one`), whereas the functions that have been made in one activation find the same
variables there, whenever they look (`Course.finds_forever`).
-/
import Lox.Proofs.Scoping.Assignment
import Lox.Proofs.Scoping.Nested
import Lox.Proofs.Session.Reach

namespace Lox

open StaticScope

/-! ## 1. Bodies begin -/

/-- With a moment comes the body of an activation, in a scope that is made for it in another one,
and to which no function leads that there is. -/
structure Moment.Activates (m : Moment) (origin : ScopeOrigin) (outer : ScopeId) (s : State)
    (fuel : Nat) (body : Task) (start : State) : Prop where
  opens : m.Next (.opens origin s)
  begins : m.Next (.begins fuel body start)
  own : start.scope = s.scopes.all.size
  link : start.scopes.LiesIn start.scope outer
  fresh : ∀ closure, body.Has start closure → ¬ start.scopes.Inside closure.scope start.scope

/-- The argument that a name stands for: that of the last parameter with the name. -/
def argument? (params : List Name) (arguments : List Value) (name : String) : Option Value :=
  ((params.zip arguments).findRev? (·.1.text = name)).map Prod.snd

@[simp] theorem argument?_nil (arguments : List Value) (name : String) :
    argument? [] arguments name = none :=
  rfl

@[simp] theorem argument?_of_nil (params : List Name) (name : String) :
    argument? params [] name = none := by
  rw [argument?, List.zip_nil_right]
  rfl

theorem argument?_cons (param : Name) (params : List Name) (value : Value) (values : List Value)
    (name : String) :
    argument? (param :: params) (value :: values) name =
      (argument? params values name).or (if param.text = name then some value else none) := by
  simp only [argument?, List.zip_cons_cons, List.findRev?_eq_find?_reverse, List.reverse_cons,
    List.find?_append, List.find?_singleton, Option.map_or, decide_eq_true_eq]
  split <;> rfl

theorem mem_of_argument? {params : List Name} {arguments : List Value} {name : String}
    {value : Value} (h : argument? params arguments name = some value) : value ∈ arguments := by
  obtain ⟨pair, found, rfl⟩ := Option.map_eq_some_iff.1 h
  rw [List.findRev?_eq_find?_reverse] at found
  exact (List.of_mem_zip (List.mem_reverse.1 (List.mem_of_find?_eq_some found))).2

/-- Parameters are bound to the arguments, without fail, and nothing else is changed. -/
theorem Eval.defineAll_binds (scope : ScopeId) (params : List Name) (arguments : List Value)
    (s : State) (there : scope < s.scopes.all.size) :
    ∃ scopes, defineAll scope params arguments s = .ok () { s with scopes := scopes } ∧
      (∀ other, scopes.enclosing? other = s.scopes.enclosing? other) ∧
      (∀ name, scopes.get? scope name =
        (argument? params arguments name).or (s.scopes.get? scope name)) ∧
      ∀ other name, other ≠ scope → scopes.get? other name = s.scopes.get? other name := by
  induction params generalizing arguments s with
  | nil => exact ⟨s.scopes, rfl, fun _ => rfl, fun name => by simp, fun _ _ _ => rfl⟩
  | cons param rest ih =>
    cases arguments with
    | nil => exact ⟨s.scopes, rfl, fun _ => rfl, fun name => by simp, fun _ _ _ => rfl⟩
    | cons value values =>
      obtain ⟨scopes, done, links, here, elsewhere⟩ := ih values
        { s with scopes := s.scopes.define scope param.text value }
        (Nat.lt_of_lt_of_eq there (Scopes.size_define ..).symm)
      refine ⟨scopes, done, fun other => (links other).trans (Scopes.enclosing?_define ..),
        fun name => ?_, fun other name unlike => ?_⟩
      · rw [here, Scopes.get?_define, argument?_cons, Option.or_assoc]
        by_cases same : param.text = name <;> simp [same, there]
      · rw [elsewhere other name unlike, Scopes.get?_define, if_neg fun h => unlike h.1.symm]

section Bodies

variable {input : Input} {room : Option Nat} {clock : Nat} {commands : List Command}
  {fuel : Nat} {s : State}

/-- Functions that were there before a scope was made do not lead into it. -/
theorem Course.not_inside_new {task : Task}
    (begun : (Past.after input room clock commands).moments (.begins fuel task s))
    {scopes : Scopes Value} (ordered : scopes.Ordered) {closure : Closure}
    (has : task.Has s closure) : ¬ scopes.Inside closure.scope s.scopes.all.size := fun inside =>
  Nat.not_le.2 (Course.made_of_has begun has).clear.lt_size (inside.le ordered)

/-- A task for code is given no functions, nor does it run one itself. -/
theorem Task.Has.held_of_code {task : Task} {closure : Closure} (has : task.Has s closure)
    (values : task.values = []) (plain : task.runsClosure = false) :
    s.store.HoldsClosure closure := by
  cases has with
  | held held => exact held
  | given mem carries => rw [values] at mem; cases mem
  | run same => exact Task.not_runs plain same

/-- The statements of a block begin in a scope of their own that binds nothing yet. -/
theorem Course.block_activates {body : List Stmt}
    (begun : (Past.after input room clock commands).moments
      (.begins (fuel + 1) (.exec (.block body)) s)) :
    ∃ start, (Moment.begins (fuel + 1) (.exec (.block body)) s).Activates (.block body) s.scope s
        fuel (.execAll body) start ∧
      ∀ name, start.scopes.get? start.scope name = none := by
  have ordered := (Course.expected begun).1.newScope (Course.expected begun).1.clear.lt_size
  let start : State :=
    { s with scopes := (s.scopes.add (some s.scope)).2, scope := s.scopes.all.size }
  have entered : (Frame.scope s.scopes.all.size).enter
      { s with scopes := (s.scopes.add (some s.scope)).2 } = .ok start := rfl
  refine ⟨start, ⟨.mk (.act rfl .opening), .mk (.act rfl (.act rfl (.begins entered))), rfl, ?_, ?_⟩,
    fun name => ?_⟩
  · exact (Scopes.enclosing?_add ..).trans (if_pos rfl)
  · intro closure has
    obtain ⟨value, held, carries⟩ := has.held_of_code rfl rfl
    have before : s.store.Holds value := by
      refine Store.holds_scopes (fun _ h => h) (fun scope name value found => ?_) value held
      rw [Scopes.get?_add] at found
      exact .bound found
    exact Course.not_inside_new begun ordered.traced.ordered (.held ⟨value, before, carries⟩)
  · exact (Scopes.get?_add ..).trans (Scopes.get?_size ..)

/-- What a call leaves in the scopes is what the body leaves there. -/
theorem Eval.scopes_applyClosure {closure : Closure} {arguments : List Value} {scopes : Scopes Value}
    (bound : defineAll s.scopes.all.size closure.declaration.params arguments
      { s with scopes := (s.scopes.add (some closure.scope)).2 } = .ok () { s with scopes := scopes }) :
    (endState (applyClosure (fuel + 1) closure arguments s)).scopes =
      (endState (execAll fuel closure.declaration.body
        { s with scopes := scopes, scope := s.scopes.all.size })).scopes := by
  have opened : newScope closure.scope s =
      .ok s.scopes.all.size { s with scopes := (s.scopes.add (some closure.scope)).2 } := rfl
  rw [applyClosure, bind_of_ok opened, bind_of_ok bound]
  cases ran : execAll fuel closure.declaration.body
      { s with scopes := scopes, scope := s.scopes.all.size } with
  | error interrupt t =>
    have left : within s.scopes.all.size (execAll fuel closure.declaration.body)
        { s with scopes := scopes } = .error interrupt { t with scope := s.scope } := by
      simp only [within, ran]
    rw [bind_of_error left]
    rfl
  | ok completion t =>
    have left : within s.scopes.all.size (execAll fuel closure.declaration.body)
        { s with scopes := scopes } = .ok completion { t with scope := s.scope } := by
      simp only [within, ran]
    rw [bind_of_ok left, Looks.plain.callResult closure completion _]
    rfl

/-- The body of a function begins in a scope of its own that binds the parameters. -/
theorem Course.call_activates {closure : Closure} {arguments : List Value}
    (begun : (Past.after input room clock commands).moments
      (.begins (fuel + 1) (.applyClosure closure arguments) s)) :
    ∃ start, (Moment.begins (fuel + 1) (.applyClosure closure arguments) s).Activates
        (.call closure.declaration) closure.scope s fuel (.execAll closure.declaration.body) start ∧
      (∀ name, start.scopes.get? start.scope name =
        argument? closure.declaration.params arguments name) ∧
      (∀ other name, other ≠ start.scope →
        start.scopes.get? other name = s.scopes.get? other name) ∧
      (endState (Eval.applyClosure (fuel + 1) closure arguments s)).scopes =
        (endState (Eval.execAll fuel closure.declaration.body start)).scopes := by
  have lt := ((Course.expected begun).2.2 closure arguments rfl).clear.lt_size
  have made := (Course.expected begun).1.newScope lt
  obtain ⟨scopes, bound, links, here, elsewhere⟩ := Eval.defineAll_binds s.scopes.all.size
    closure.declaration.params arguments { s with scopes := (s.scopes.add (some closure.scope)).2 }
    (Nat.lt_of_lt_of_eq (Nat.lt_succ_self _) (Scopes.size_add ..).symm)
  have ordered : scopes.Ordered := fun inner outer link =>
    made.traced.ordered inner outer ((links inner).symm.trans link)
  let start : State := { s with scopes := scopes, scope := s.scopes.all.size }
  have entered : (Frame.scope s.scopes.all.size).enter { s with scopes := scopes } = .ok start := rfl
  refine ⟨start, ⟨.mk .opening, .mk (.act rfl (.act bound (.begins entered))), rfl, ?_, ?_⟩,
    fun name => ?_, fun other name unlike => (elsewhere other name unlike).trans (Scopes.get?_add ..),
    Eval.scopes_applyClosure bound⟩
  · exact (links _).trans ((Scopes.enclosing?_add ..).trans (if_pos rfl))
  · intro other has
    obtain ⟨value, held, carries⟩ := has.held_of_code rfl rfl
    refine Course.not_inside_new begun ordered (?_ : Task.Has _ s other)
    -- what is bound in the new scope has been given as an argument
    have before : s.store.Holds value ∨ value ∈ arguments := by
      refine Store.holds_scopes (P := fun value => s.store.Holds value ∨ value ∈ arguments)
        (fun _ => .inl) (fun scope name value found => ?_) value held
      by_cases new : scope = s.scopes.all.size
      · subst new
        rw [here, Scopes.get?_add, Scopes.get?_size, Option.or_none] at found
        exact .inr (mem_of_argument? found)
      · rw [elsewhere _ _ new, Scopes.get?_add] at found
        exact .inl (.bound found)
    rcases before with held | mem
    · exact .held ⟨value, held, carries⟩
    · exact .given mem carries
  · exact (here name).trans (by rw [Scopes.get?_add, Scopes.get?_size, Option.or_none])

/-- The body of a `foreach` loop begins each of its turns in a scope of its own that binds the
variable of the loop to the item. -/
theorem Course.turn_activates {cursor : Cursor} {line : Nat} {name : Name} {body : Stmt}
    {before s' : State} {item : Value}
    (begun : (Past.after input room clock commands).moments
      (.begins (fuel + 1) (.forEach cursor line name body) before))
    (more : Eval.cursorHasItems fuel cursor line before = .ok true s)
    (current : Eval.cursorCurrent fuel cursor line
      { s with scopes := (s.scopes.add (some s.scope)).2 } = .ok item s') :
    ∃ start, (Moment.begins (fuel + 1) (.forEach cursor line name body) before).Activates
        (.iteration name body) s.scope s fuel (.exec body) start ∧
      ∀ other, start.scopes.get? start.scope other =
        if name.text = other then some item else none := by
  have closed := (Course.scoped input room clock commands).closed
  let opened : State := { s with scopes := (s.scopes.add (some s.scope)).2 }
  have asks : (Past.after input room clock commands).moments
      (.begins fuel (.cursorHasItems cursor line) before) := closed _ _ begun (.mk (.begins rfl))
  have looks : (Past.after input room clock commands).moments
      (.begins fuel (.cursorCurrent cursor line) opened) :=
    closed _ _ begun (.mk (.call more (.act rfl (.act rfl (.begins rfl)))))
  have reached := Course.traced_endState asks
  rw [show Task.run fuel (.cursorHasItems cursor line) before = _ from more] at reached
  change before.Traces _ _ s at reached
  have added := reached.traced.newScope reached.traced.clear.lt_size
  -- the new scope is out of the reach of the task that looks for the item
  have out : (Task.cursorCurrent cursor line).OutOfReach opened s.scopes.all.size := by
    have below : ∀ {scope : ScopeId}, scope < s.scopes.all.size →
        ¬ opened.scopes.Inside scope s.scopes.all.size :=
      fun lt inside => Nat.not_le.2 lt (inside.le added.traced.ordered)
    refine ⟨below reached.traced.clear.lt_size, fun closure has => below ?_⟩
    cases has with
    | held held =>
      obtain ⟨value, held, carries⟩ := held
      have earlier : s.store.Holds value := by
        refine Store.holds_scopes (fun _ h => h) (fun scope name value found => ?_) value held
        rw [Scopes.get?_add] at found
        exact .bound found
      exact ((reached.traced.within value earlier).closures closure carries).clear.lt_size
    | given mem carries =>
      exact Nat.lt_of_lt_of_le (Course.made_of_has asks (.given mem carries)).clear.lt_size
        reached.extended.size
    | run same => cases same
  have there : s.scopes.all.size ≠ globalScope ∧ s.scopes.all.size < opened.scopes.all.size :=
    ⟨Nat.ne_of_gt (Nat.lt_of_le_of_lt (Nat.zero_le _) reached.traced.clear.lt_size),
      Nat.lt_of_lt_of_eq (Nat.lt_succ_self _) (Scopes.size_add ..).symm⟩
  obtain ⟨left, -, ends⟩ := Course.stays_out_of_reach looks there out
  have behind := Course.traced_endState looks
  have kept := left.behind
  rw [show Task.run fuel (.cursorCurrent cursor line) opened = _ from current] at behind ends kept
  change opened.Traces _ _ s' at behind
  let start : State := { s' with
    scopes := s'.scopes.define s.scopes.all.size name.text item, scope := s.scopes.all.size }
  have entered : (Frame.scope s.scopes.all.size).enter
      { s' with scopes := s'.scopes.define s.scopes.all.size name.text item } = .ok start := rfl
  have lt := Nat.lt_of_lt_of_le there.2 behind.extended.size
  refine ⟨start, ⟨.mk (.call more (.act rfl .opening)), .mk (.call more (.act rfl (.act rfl
    (.call current (.act rfl (.begins entered)))))), rfl, ?_, ?_⟩, fun other => ?_⟩
  · have link : opened.scopes.LiesIn s.scopes.all.size s.scope :=
      (Scopes.enclosing?_add ..).trans (if_pos rfl)
    exact (Scopes.enclosing?_define ..).trans (behind.extended.liesIn link)
  · rintro closure has ⟨hops, inside⟩
    obtain ⟨value, held, carries⟩ := has.held_of_code rfl rfl
    rw [Scopes.ancestor?_define] at inside
    refine ends closure ?_ ⟨hops, inside⟩
    have earlier : s'.store.Holds value ∨ value = item := by
      refine Store.holds_scopes (P := fun value => s'.store.Holds value ∨ value = item)
        (fun _ => .inl) (fun scope name value found => ?_) value held
      rw [Scopes.get?_define] at found
      split at found
      · exact .inr (Option.some.inj found).symm
      · exact .inl (.bound found)
    rcases earlier with held | rfl
    · exact .inl ⟨value, held, carries⟩
    · exact .inr ⟨value, List.mem_cons_self, carries⟩
  · refine (Scopes.get?_define ..).trans ?_
    have unbound : s'.scopes.get? s.scopes.all.size other = none :=
      (kept other).trans ((Scopes.get?_add ..).trans (Scopes.get?_size ..))
    simp only [show start.scope = s.scopes.all.size from rfl, unbound, lt, and_true, true_and]

end Bodies

/-! ## 2. Declarations -/

section Declarations

variable {input : Input} {room : Option Nat} {clock : Nat} {commands : List Command}
  {fuel : Nat} {s s' : State}

/-- A declaration in a local scope binds its name there, and no other scope gets a name by it. -/
theorem Course.declares_here {st : Stmt} {name : Name} (declares : st.declared? = some name)
    (begun : (Past.after input room clock commands).moments (.begins fuel (.exec st) s))
    (inside : s.scope ≠ globalScope) (done : Eval.exec fuel st s = .ok .normal s') :
    s'.scope = s.scope ∧ s'.scopes.binds s.scope name.text ∧
      ∀ other < s.scopes.all.size, other ≠ s.scope →
        ∀ name', s'.scopes.binds other name' → s.scopes.binds other name' := by
  obtain ⟨earlier, stack, begun⟩ :=
    (Course.scoped input room clock commands).begun fuel (.exec st) s begun
  have ready : s.Ready earlier stack (Occurrence.ofStmt stack st) := begun.expects.1
  have ends := begun.ends
  have place := Task.keeps_run fuel (.exec st) s
  rw [show (Task.exec st).run fuel s = _ from done] at ends place
  obtain ⟨leads, -, placed⟩ := ends
  have kept : s'.scope = s.scope := place.scope
  refine ⟨kept, ?_, fun other lt unlike name' => leads.names other name' lt fun same =>
    unlike (Option.some.inj same).symm⟩
  cases stack with
  | nil => exact absurd ready.placed.realizes inside
  | cons static outer =>
    have realizes := (placed rfl).realizes
    rw [Stmt.after, declares, kept] at realizes
    exact realizes.2.1 name.text ((Bindings.get?_insert ..).trans (if_pos rfl))

end Declarations

/-! ## 3. Variables -/

/-- The scope where the variable with an id is looked for. -/
def State.accesses? (s : State) (id : Id) : Option ScopeId :=
  match s.resolution.binding id with
  | .local hops => s.scopes.ancestor? s.scope hops
  | .global => some globalScope

/-- It is one of the scopes around the current one, or that of the globals. -/
theorem State.inside_of_accesses? {s : State} {id : Id} {n : ScopeId}
    (accesses : s.accesses? id = some n) : n = globalScope ∨ s.scopes.Inside s.scope n := by
  unfold accesses? at accesses
  split at accesses
  · exact .inr ⟨_, accesses⟩
  · exact .inl (Option.some.inj accesses).symm

/-- A variable gives what is bound to its name in the scope where it is looked for. -/
theorem Eval.eval_variable_eq (fuel : Nat) (v : Variable) (s : State) :
    eval (fuel + 1) (.variable v) s =
      match (s.accesses? v.id).bind (s.scopes.get? · v.name.text) with
      | some value => .ok value s
      | none => .error (.error ⟨.undefinedVariable v.name.text, v.name.line⟩) s := by
  rw [eval_variable, readVariable, look_bind, State.accesses?]
  cases s.resolution.binding v.id with
  | «local» hops =>
    simp only [Scopes.getAt?]
    cases (s.scopes.ancestor? s.scope hops).bind (s.scopes.get? · v.name.text) <;> rfl
  | global =>
    simp only [Option.bind_some]
    cases s.scopes.get? globalScope v.name.text <;> rfl

/-- An assignment changes it there, if there is one. -/
theorem Eval.eval_assign_eq {fuel : Nat} {target : Variable} {e : Expr} {s s' : State} {v : Value}
    (answer : eval fuel e s = .ok v s') :
    eval (fuel + 1) (.assign target e) s =
      match (s'.accesses? target.id).filter (s'.scopes.binds · target.name.text) with
      | some n => .ok v { s' with scopes := s'.scopes.define n target.name.text v }
      | none =>
        .error (.error ⟨.undefinedVariable target.name.text, target.name.line⟩) s' := by
  rw [eval_assign answer, writeVariable, State.accesses?]
  cases s'.resolution.binding target.id with
  | «local» hops =>
    cases (s'.scopes.ancestor? s'.scope hops).filter (s'.scopes.binds · target.name.text) <;> rfl
  | global => cases (some globalScope).filter (s'.scopes.binds · target.name.text) <;> rfl

/-! ## 4. Constructs -/

/-- The scopes around another one have been made for different constructs. -/
def Past.Separates (past : Past) (scopes : Scopes Value) (scope : ScopeId) : Prop :=
  ∀ origin n n', past.Opened n origin → past.Opened n' origin →
    scopes.Inside scope n → scopes.Inside scope n' → n = n'

/-- What lies around a scope that realizes static scopes has been made for their constructs. -/
theorem Realizes.opened_at {past : Past} {σ : Store} {scope : ScopeId} {stack : List StaticScope}
    (h : Realizes past σ scope stack) (ordered : σ.scopes.Ordered) {hops : Nat} {n : ScopeId}
    (reached : σ.scopes.ancestor? scope hops = some n) :
    n = globalScope ∨ ∃ static, stack[hops]? = some static ∧ past.Opened n static.origin := by
  induction stack generalizing scope hops with
  | nil =>
    obtain rfl : scope = globalScope := h
    exact .inl (Nat.le_zero.1 (ordered.le_of_ancestor? reached))
  | cons static outer ih =>
    obtain ⟨opened, -, next, link, around⟩ := h
    cases hops with
    | zero =>
      cases reached
      exact .inr ⟨static, rfl, opened⟩
    | succ hops =>
      rw [Scopes.ancestor?, link] at reached
      exact ih around reached

section Separates

variable {past earlier : Past} {stack : List StaticScope} {os : List Occurrence} {s : State}

/-- Around a place where something is said about a name, no two scopes have been made for the same
construct, as no construct contains itself. -/
theorem State.Ready.separates (ready : s.Ready earlier stack os) (before : earlier.Before past)
    {hi : Nat} (openings : Openings past.moments 1 hi) (ordered : s.scopes.Ordered) {o : Occurrence}
    (mem : o ∈ os) (here : o.scopes = stack) : past.Separates s.scopes s.scope := by
  obtain ⟨program, -, occurs⟩ := ready.known o mem
  have static_at : ∀ {origin n hops}, past.Opened n origin →
      s.scopes.ancestor? s.scope hops = some n →
      ∃ static, o.scopes[hops]? = some static ∧ static.origin = origin := by
    intro origin n hops opened reached
    rcases ready.placed.realizes.opened_at ordered reached with rfl | ⟨static, there, opened'⟩
    · obtain ⟨t, opens, zero⟩ := opened
      exact absurd (openings.within origin t opens).1 (Nat.not_le.2 (zero ▸ Nat.zero_lt_one))
    · exact ⟨static, here ▸ there, Past.Opened.origin_eq openings (before.opened opened') opened⟩
  rintro origin n n' opened opened' ⟨hops, reached⟩ ⟨hops', reached'⟩
  obtain ⟨static, there, same⟩ := static_at opened reached
  obtain ⟨static', there', same'⟩ := static_at opened' reached'
  obtain rfl := Occurrence.origin_inj occurs there there' (same.trans same'.symm)
  exact Option.some.inj (reached.symm.trans reached')

end Separates

section Session

variable {input : Input} {room : Option Nat} {clock : Nat} {commands : List Command}
  {fuel : Nat} {s : State}

/-- An expression that names something is evaluated where no two scopes belong to one construct. -/
theorem Course.eval_separates {e : Expr}
    (begun : (Past.after input room clock commands).moments (.begins fuel (.eval e) s))
    (names : ∀ stack, ∃ o, o ∈ Occurrence.ofExpr stack e) :
    (Past.after input room clock commands).Separates s.scopes s.scope := by
  obtain ⟨earlier, stack, before, ready⟩ := Course.ready_eval begun
  obtain ⟨o, mem⟩ := names stack
  exact ready.separates before (Course.openings input room clock commands)
    (Course.expected begun).1.ordered mem (Occurrence.scopes_of_mem_ofExpr e mem)

/-- So is the declaration of a function or of a class with a method. -/
theorem Course.declaration_separates {closure : Closure}
    (declares : (Past.after input room clock commands).Declares closure s) :
    (Past.after input room clock commands).Separates s.scopes s.scope := by
  have places := (Course.scoped input room clock commands).begun
  have openings := Course.openings input room clock commands
  cases declares with
  | function begun =>
    obtain ⟨earlier, stack, here⟩ := places _ _ _ begun
    exact here.expects.1.separates here.before openings (Course.expected begun).1.ordered
      List.mem_cons_self rfl
  | method begun =>
    obtain ⟨earlier, stack, here⟩ := places _ _ _ begun
    exact here.expects.1.separates here.before openings (Course.expected begun).1.ordered
      List.mem_cons_self rfl

/-- **No function leads into two activations of one construct.** -/
theorem Course.leads_into_one {task : Task} {closure : Closure}
    (begun : (Past.after input room clock commands).moments (.begins fuel task s))
    (has : task.Has s closure) {origin : ScopeOrigin} (activation : origin.isActivation)
    {n n' : ScopeId} (opened : (Past.after input room clock commands).Opened n origin)
    (opened' : (Past.after input room clock commands).Opened n' origin)
    (inside : s.scopes.Inside closure.scope n) (inside' : s.scopes.Inside closure.scope n') :
    n = n' := by
  obtain ⟨clear, made⟩ := Course.made_of_has begun has
  obtain ⟨t, declares, kept, around⟩ := made.declared
  have declared : ((Course.new input room clock).follow commands).Reached t := by
    cases declares with
    | function begun => exact .begins begun
    | method begun => exact .begins begun
  -- what lies around the scope of the declaration is the same in both states
  have here := Course.extends_of_reached (.begins begun)
  have there := Course.extends_of_reached declared
  have lt : t.scope < s.scopes.all.size :=
    Nat.lt_of_le_of_lt (kept.le (Course.expected begun).1.ordered) clear.lt_size
  have same : ∀ m, s.scopes.Inside t.scope m → t.scopes.Inside t.scope m := fun m inside =>
    (there.inside_iff (Course.traced_of_reached declared).clear.lt_size).1
      ((here.inside_iff lt).2 inside)
  have plain := (Course.activation opened activation).2
  have plain' := (Course.activation opened' activation).2
  exact Course.declaration_separates declares origin n n' opened opened'
    (same n (around n plain inside)) (same n' (around n' plain' inside'))

/-- **A function leaves the activations alone in which it has not been made**, as long as it runs no
function that has. -/
theorem Course.call_leaves_alone {closure : Closure} {arguments : List Value}
    (begun : (Past.after input room clock commands).moments
      (.begins (fuel + 1) (.applyClosure closure arguments) s))
    {origin : ScopeOrigin} {n : ScopeId}
    (opened : (Past.after input room clock commands).Opened n origin)
    (activation : origin.isActivation) (there : n < s.scopes.all.size)
    (foreign : ∀ fuel' other arguments' t, Moment.Reaches
      (.begins (fuel + 1) (.applyClosure closure arguments) s)
      (.begins fuel' (.applyClosure other arguments') t) →
      ¬ (Past.after input room clock commands).MadeIn t.scopes n other) (name : String) :
    (endState (Eval.applyClosure (fuel + 1) closure arguments s)).scopes.get? n name =
      s.scopes.get? n name := by
  obtain ⟨start, activates, -, others, same⟩ := Course.call_activates begun
  have runs := (Course.scoped input room clock commands).closed _ _ begun activates.begins
  have unlike : n ≠ start.scope := activates.own ▸ Nat.ne_of_lt there
  have grown : s.scopes.all.size < start.scopes.all.size :=
    activates.own ▸ (Course.expected runs).1.clear.lt_size
  have outside : ¬ start.scopes.Inside start.scope n := by
    intro inside
    rcases (Scopes.inside_of_liesIn activates.link).1 inside with own | inside
    · exact unlike own.symm
    · -- the scope of the function is no new one, and lies where it did
      have kept := (Course.made_of_has begun (.run rfl)).clear.lt_size
      have here := Course.extends_of_reached (.begins begun)
      have later := Course.extends_of_reached (.begins runs)
      have inside := (later.inside_iff (Nat.lt_trans kept grown)).2 inside
      exact foreign _ _ _ _ .refl ((Course.leads_in_iff begun (.run rfl) opened activation).1
        ((here.inside_iff kept).1 inside))
  have alone := Course.left_alone runs opened activation (Nat.lt_trans there grown) outside
    fun fuel' other arguments' t later =>
      foreign fuel' other arguments' t (.head activates.begins later)
  rw [same]
  exact (alone.behind name).trans (others n name unlike)

/-- A variable is looked for among the globals or in a scope around the current one, and there is no
other one around that has been made for the same construct. -/
def Past.AccessesOwn (past : Past) (s : State) (id : Id) : Prop :=
  ∀ n, s.accesses? id = some n → n = globalScope ∨ s.scopes.Inside s.scope n ∧
    ∀ origin n', past.Opened n origin → past.Opened n' origin → s.scopes.Inside s.scope n' → n' = n

theorem Course.accesses_own {e : Expr} {id : Id}
    (begun : (Past.after input room clock commands).moments (.begins fuel (.eval e) s))
    (names : ∀ stack, ∃ o, o ∈ Occurrence.ofExpr stack e) :
    (Past.after input room clock commands).AccessesOwn s id := by
  intro n accesses
  refine (State.inside_of_accesses? accesses).imp_right fun inside =>
    ⟨inside, fun origin n' opened opened' inside' => ?_⟩
  exact Course.eval_separates begun names origin n' n opened' opened inside' inside

/-- While the right side of an assignment is evaluated, its target stays where it is. -/
theorem Course.accesses?_eq {target : Variable} {e : Expr} {s' : State} {v : Value}
    (begun : (Past.after input room clock commands).moments
      (.begins (fuel + 1) (.eval (.assign target e)) s))
    (answer : Eval.eval fuel e s = .ok v s') : s'.accesses? target.id = s.accesses? target.id := by
  have evaluates : (Past.after input room clock commands).moments (.begins fuel (.eval e) s) :=
    (Course.scoped input room clock commands).closed _ _ begun (.mk (.begins rfl))
  have traces := Course.traced_endState evaluates
  have place := Task.keeps_run fuel (.eval e) s
  rw [show (Task.eval e).run fuel s = _ from answer] at traces place
  have same : s'.resolution = s.resolution := place.resolution
  have here : s'.scope = s.scope := place.scope
  rw [State.accesses?, State.accesses?, same, here]
  cases s.resolution.binding target.id with
  | «local» hops => exact traces.extended.ancestor?_eq (Course.expected begun).1.clear.lt_size hops
  | global => rfl

/-- **Functions that find a scope find it ever after**, and with it what any of them has written. -/
theorem Course.finds_forever {task task' : Task} {fuel' : Nat} {t : State} {closure : Closure}
    (begun : (Past.after input room clock commands).moments (.begins fuel task s))
    (begun' : (Past.after input room clock commands).moments (.begins fuel' task' t))
    (has : task.Has s closure) (has' : task'.Has t closure) {hops : Nat} {n : ScopeId}
    (reached : s.scopes.ancestor? closure.scope hops = some n) (name : String) :
    t.scopes.getAt? closure.scope hops name = t.scopes.get? n name ∧
      ∀ value, (t.scopes.define n name value).getAt? closure.scope hops name = some value := by
  have here := Course.extends_of_reached (.begins begun)
  have there := Course.extends_of_reached (.begins begun')
  have old := (Course.made_of_has begun' has').clear.lt_size
  have reached : t.scopes.ancestor? closure.scope hops = some n := by
    rwa [← there.ancestor?_eq old, here.ancestor?_eq (Course.made_of_has begun has).clear.lt_size]
  have lt : n < t.scopes.all.size :=
    Nat.lt_of_le_of_lt (Scopes.Inside.le ⟨hops, reached⟩ (Course.expected begun').1.ordered) old
  refine ⟨by rw [Scopes.getAt?, reached, Option.bind_some], fun value => ?_⟩
  rw [Scopes.getAt?, Scopes.ancestor?_define, reached, Option.bind_some, Scopes.get?_define,
    if_pos ⟨rfl, rfl, lt⟩]

end Session

/-! ## 5. Activations -/

/-- Every activation has its own variables. -/
structure Course.OwnVariables (course : Course) : Prop where
  /-- The statements of a block begin in a scope of their own, which binds nothing yet. -/
  block : ∀ fuel body s, course.past.moments (.begins (fuel + 1) (.exec (.block body)) s) →
    ∃ start, (Moment.begins (fuel + 1) (.exec (.block body)) s).Activates (.block body) s.scope s
        fuel (.execAll body) start ∧
      ∀ name, start.scopes.get? start.scope name = none
  /-- The body of a function begins in a scope of its own, which binds the parameters. -/
  call : ∀ fuel closure arguments s,
    course.past.moments (.begins (fuel + 1) (.applyClosure closure arguments) s) →
    ∃ start, (Moment.begins (fuel + 1) (.applyClosure closure arguments) s).Activates
        (.call closure.declaration) closure.scope s fuel (.execAll closure.declaration.body) start ∧
      ∀ name, start.scopes.get? start.scope name =
        argument? closure.declaration.params arguments name
  /-- The body of a `foreach` loop begins for every item in a scope of its own, which binds the
  variable of the loop. -/
  turn : ∀ fuel cursor line name body before s item s',
    course.past.moments (.begins (fuel + 1) (.forEach cursor line name body) before) →
    Eval.cursorHasItems fuel cursor line before = .ok true s →
    Eval.cursorCurrent fuel cursor line { s with scopes := (s.scopes.add (some s.scope)).2 } =
      .ok item s' →
    ∃ start, (Moment.begins (fuel + 1) (.forEach cursor line name body) before).Activates
        (.iteration name body) s.scope s fuel (.exec body) start ∧
      ∀ other, start.scopes.get? start.scope other = if name.text = other then some item else none
  /-- What is declared in such a scope is bound there, and in no other one that there is. -/
  locals : ∀ fuel st name s s', st.declared? = some name →
    course.past.moments (.begins fuel (.exec st) s) → s.scope ≠ globalScope →
    Eval.exec fuel st s = .ok .normal s' →
    s'.scope = s.scope ∧ s'.scopes.binds s.scope name.text ∧
      ∀ other < s.scopes.all.size, other ≠ s.scope →
        ∀ name', s'.scopes.binds other name' → s.scopes.binds other name'
  /-- A scope that is out of reach when a task begins is so throughout the task, and left alone. -/
  unreached : ∀ fuel task s n, course.past.moments (.begins fuel task s) →
    n ≠ globalScope → n < s.scopes.all.size → task.OutOfReach s n →
    task.LeavesAlone fuel s n ∧ ∀ fuel' task' t,
      Moment.Reaches (.begins fuel task s) (.begins fuel' task' t) → task'.OutOfReach t n
  /-- The functions that lead into the scope of an activation are those that have been made
  there. -/
  captured : ∀ fuel task s closure n origin, course.past.moments (.begins fuel task s) →
    task.Has s closure → course.past.Opened n origin → origin.isActivation →
    (s.scopes.Inside closure.scope n ↔ course.past.MadeIn s.scopes n closure)
  /-- None has been made in two activations of one construct. -/
  one : ∀ fuel task s closure n n' origin, course.past.moments (.begins fuel task s) →
    task.Has s closure → course.past.Opened n origin → course.past.Opened n' origin →
    origin.isActivation → course.past.MadeIn s.scopes n closure →
    course.past.MadeIn s.scopes n' closure → n = n'
  /-- What begins outside an activation leaves its scope alone, as long as no function is run that
  has been made there. -/
  outside : ∀ fuel task s n origin, course.past.moments (.begins fuel task s) →
    course.past.Opened n origin → origin.isActivation → n < s.scopes.all.size →
    ¬ s.scopes.Inside s.scope n →
    (∀ fuel' closure arguments t, Moment.Reaches (.begins fuel task s)
      (.begins fuel' (.applyClosure closure arguments) t) →
      ¬ course.past.MadeIn t.scopes n closure) →
    task.LeavesAlone fuel s n
  /-- So does a function that has been made elsewhere, wherever it is called. -/
  elsewhere : ∀ fuel closure arguments s n origin,
    course.past.moments (.begins (fuel + 1) (.applyClosure closure arguments) s) →
    course.past.Opened n origin → origin.isActivation → n < s.scopes.all.size →
    (∀ fuel' other arguments' t, Moment.Reaches
      (.begins (fuel + 1) (.applyClosure closure arguments) s)
      (.begins fuel' (.applyClosure other arguments') t) →
      ¬ course.past.MadeIn t.scopes n other) →
    ∀ name, (endState (Eval.applyClosure (fuel + 1) closure arguments s)).scopes.get? n name =
      s.scopes.get? n name
  /-- Code reads the variables of its own activations, and none of another one of the same
  construct. -/
  read : ∀ fuel v s, course.past.moments (.begins (fuel + 1) (.eval (.variable v)) s) →
    course.past.AccessesOwn s v.id ∧
      Eval.eval (fuel + 1) (.variable v) s =
        match (s.accesses? v.id).bind (s.scopes.get? · v.name.text) with
        | some value => .ok value s
        | none => .error (.error ⟨.undefinedVariable v.name.text, v.name.line⟩) s
  /-- It writes no others. -/
  written : ∀ fuel target e s v s',
    course.past.moments (.begins (fuel + 1) (.eval (.assign target e)) s) →
    Eval.eval fuel e s = .ok v s' →
    course.past.AccessesOwn s target.id ∧
      Eval.eval (fuel + 1) (.assign target e) s =
        match (s.accesses? target.id).filter (s'.scopes.binds · target.name.text) with
        | some n => .ok v { s' with scopes := s'.scopes.define n target.name.text v }
        | none => .error (.error ⟨.undefinedVariable target.name.text, target.name.line⟩) s'
  /-- Two functions that lead to a scope share it at any time: both see what it binds, and what is
  written there. -/
  shared : ∀ fuel task s fuel' task' t closure closure' hops hops' n,
    course.past.moments (.begins fuel task s) → course.past.moments (.begins fuel' task' t) →
    task.Has s closure → task.Has s closure' → task'.Has t closure → task'.Has t closure' →
    s.scopes.ancestor? closure.scope hops = some n →
    s.scopes.ancestor? closure'.scope hops' = some n → ∀ name,
    t.scopes.getAt? closure.scope hops name = t.scopes.get? n name ∧
      t.scopes.getAt? closure'.scope hops' name = t.scopes.get? n name ∧
      ∀ value, (t.scopes.define n name value).getAt? closure.scope hops name = some value ∧
        (t.scopes.define n name value).getAt? closure'.scope hops' name = some value

/-- **Every activation has its own variables.**  In every session, each execution of a block, each
call of a function and each turn of a `foreach` loop binds its variables in a scope of its own.
Only functions that have been made in it lead there; no function leads into two activations of one
construct, and those that lead into one share what is bound there at any time. -/
theorem activations_have_their_own_variables (input : Input) (room : Option Nat) (clock : Nat)
    (commands : List Command) :
    ((Course.new input room clock).follow commands).OwnVariables where
  block _ _ _ begun := Course.block_activates begun
  call _ _ _ _ begun := by
    obtain ⟨start, activates, binds, -⟩ := Course.call_activates begun
    exact ⟨start, activates, binds⟩
  turn _ _ _ _ _ _ _ _ _ begun more current := Course.turn_activates begun more current
  locals _ _ _ _ _ declares begun inside done := Course.declares_here declares begun inside done
  unreached _ _ _ _ begun other lt out := by
    obtain ⟨alone, stays, -⟩ := Course.stays_out_of_reach begun ⟨other, lt⟩ out
    exact ⟨alone, stays⟩
  captured _ _ _ _ _ _ begun has opened activation :=
    Course.leads_in_iff begun has opened activation
  one _ _ _ _ _ _ _ begun has opened opened' activation made made' :=
    Course.leads_into_one begun has activation opened opened'
      ((Course.leads_in_iff begun has opened activation).2 made)
      ((Course.leads_in_iff begun has opened' activation).2 made')
  outside _ _ _ _ _ begun opened activation lt outside foreign :=
    Course.left_alone begun opened activation lt outside foreign
  elsewhere _ _ _ _ _ _ begun opened activation lt foreign :=
    Course.call_leaves_alone begun opened activation lt foreign
  read _ v _ begun :=
    ⟨Course.accesses_own begun fun _ => ⟨_, List.mem_singleton_self _⟩,
      Eval.eval_variable_eq _ v _⟩
  written _ target e _ _ _ begun answer :=
    ⟨Course.accesses_own begun fun _ => ⟨_, List.mem_append_right _ (List.mem_singleton_self _)⟩,
      Course.accesses?_eq begun answer ▸ Eval.eval_assign_eq answer⟩
  shared _ _ _ _ _ _ _ _ _ _ _ begun begun' has₁ has₂ has₁' has₂' reached₁ reached₂ name := by
    obtain ⟨finds₁, writes₁⟩ := Course.finds_forever begun begun' has₁ has₁' reached₁ name
    obtain ⟨finds₂, writes₂⟩ := Course.finds_forever begun begun' has₂ has₂' reached₂ name
    exact ⟨finds₁, finds₂, fun value => ⟨writes₁ value, writes₂ value⟩⟩

end Lox
