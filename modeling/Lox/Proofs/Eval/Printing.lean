/-
# What is printed, and what a writer without a limit would make of it

A print adds its text and a newline to the output, if the writer takes them, so that the output
after some prints can be told from the output before them and from their texts
(`Output.printAll`).

`Task.prints` lists the texts that a task prints, in order.  The text of a print comes after those
that the evaluation of its value prints.

An `Account` says all that there is to say about an evaluation: how it ends, the moments that it
passes and the texts that it prints.  The account of a script is composed of those of its acts and
of the tasks that it calls (`Script.account_act`, `Script.account_call`).
-/
import Lox.Proofs.Eval.Conduct
import Lox.Proofs.Eval.Trace

namespace Lox

/-! ## 1. Output

A writer may have room for so many newlines.  A print needs one for itself and one for each in its
text. -/

/-- The number of newlines that printing some texts takes. -/
def newlinesToPrintAll : List String → Nat
  | [] => 0
  | text :: texts => newlinesToPrint text + newlinesToPrintAll texts

/-- What some texts are in print. -/
def printedText : List String → String
  | [] => ""
  | text :: texts => text ++ "\n" ++ printedText texts

namespace Output

/-- Prints some texts in order. -/
def printAll (output : Output) (texts : List String) : Output := texts.foldl print output

/-- Whether the writer has room for all of some texts. -/
def TakesAll (output : Output) (texts : List String) : Prop :=
  ∀ room, output.room = some room → newlinesToPrintAll texts ≤ room

/-- The output of a writer without a limit. -/
def unlimited (output : Output) : Output := { output with room := none }

variable {output : Output} {texts : List String}

/-- What has been printed is put behind what was there. -/
theorem text_printAll (output : Output) (texts : List String) :
    (output.printAll texts).text = output.text ++ printedText texts := by
  induction texts generalizing output with
  | nil => exact (String.append_empty).symm
  | cons text texts ih =>
    refine (ih _).trans ?_
    simp only [print, printedText, String.append_assoc]

/-- The room that is left once some texts have been printed. -/
theorem room_printAll (output : Output) (texts : List String) :
    (output.printAll texts).room = output.room.map (· - newlinesToPrintAll texts) := by
  induction texts generalizing output with
  | nil =>
    change output.room = output.room.map fun room => room - 0
    simp
  | cons text texts ih =>
    refine (ih _).trans ?_
    rw [print, Option.map_map]
    refine congrArg (output.room.map ·) (funext fun room => ?_)
    simp only [newlinesToPrintAll, Function.comp_apply, Nat.sub_sub]

theorem takesAll_nil : output.TakesAll [] := fun _ _ => Nat.zero_le _

/-- Newlines are counted text by text. -/
theorem newlinesToPrintAll_append (texts later : List String) :
    newlinesToPrintAll (texts ++ later) = newlinesToPrintAll texts + newlinesToPrintAll later := by
  induction texts with
  | nil => exact (Nat.zero_add _).symm
  | cons text texts ih =>
    simp only [List.cons_append, newlinesToPrintAll, ih, Nat.add_assoc]

/-- A writer takes two lists if it takes the first, and then the second. -/
theorem TakesAll.append {later : List String} (h : output.TakesAll texts)
    (h' : (output.printAll texts).TakesAll later) : output.TakesAll (texts ++ later) := by
  intro room found
  have first := h room found
  have second := h' (room - newlinesToPrintAll texts) (by rw [room_printAll, found]; rfl)
  rw [newlinesToPrintAll_append]
  omega

/-- A writer takes a list of one text if it takes that text. -/
theorem takesAll_singleton {text : String} : output.TakesAll [text] ↔ output.takes text = true := by
  unfold TakesAll takes
  cases output.room with
  | none => simp
  | some room => simp [newlinesToPrintAll]

end Output

/-! ## 2. States without a limit

To lift the limit changes one part of the state. -/

/-- The state in which the writer has no limit. -/
def State.unlimited (s : State) : State := s.writing s.output.unlimited

/-- The moment in which the writer has no limit. -/
def Moment.unlimited : Moment → Moment
  | begins fuel task s => begins fuel task s.unlimited
  | opens origin s => opens origin s.unlimited

/-- An end with a writer that has no limit. -/
def unlimitedEnd {α : Type} :
    EStateM.Result Interrupt State α → EStateM.Result Interrupt State α
  | .ok v s => .ok v s.unlimited
  | .error interrupt s => .error interrupt s.unlimited

namespace Frame

/-- Frames have nothing to do with the writer. -/
theorem enter_unlimited (frame : Frame) (s : State) :
    frame.enter s.unlimited = (frame.enter s).map State.unlimited := by
  cases frame with
  | same | scope id => rfl
  | call line =>
    change (if maxDepth ≤ s.depth then _ else _) =
      Except.map _ (if maxDepth ≤ s.depth then _ else _)
    split <;> rfl

theorem leave_unlimited (frame : Frame) (s t : State) :
    frame.leave s.unlimited t.unlimited = (frame.leave s t).unlimited := by
  cases frame <;> rfl

/-- So the end behind a frame is the same with a writer without limit. -/
theorem leaveEnd_unlimited {α : Type} (frame : Frame) (s : State)
    (result : EStateM.Result Interrupt State α) :
    frame.leaveEnd s.unlimited (unlimitedEnd result) = unlimitedEnd (frame.leaveEnd s result) := by
  cases result with
  | ok v t => exact congrArg _ (frame.leave_unlimited s t)
  | error interrupt t => exact congrArg _ (frame.leave_unlimited s t)

/-- To enter a frame prints nothing. -/
theorem output_enter {frame : Frame} {s inner : State} (entered : frame.enter s = .ok inner) :
    inner.output = s.output := by
  cases frame with
  | same | scope id =>
    cases entered
    rfl
  | call line =>
    simp only [enter] at entered
    split at entered
    · cases entered
    · cases entered
      rfl

/-- Neither does leaving it. -/
theorem output_leaveEnd {α : Type} (frame : Frame) (s : State)
    (result : EStateM.Result Interrupt State α) :
    (endState (frame.leaveEnd s result)).output = (endState result).output := by
  cases frame <;> cases result <;> rfl

end Frame

/-- The output does nothing to a detached act, and the act nothing to the output. -/
theorem Eval.DetachedUpTo.unlimited {α : Type} {same : α → α → Prop} {x : Eval α}
    (h : x.DetachedUpTo same) (s : State) :
    SameEnd s.output.unlimited same (x s) (x s.unlimited) ∧ (endState (x s)).output = s.output := by
  refine ⟨h.blind s _, ?_⟩
  have self := h.blind s s.output
  have own : s.writing s.output = s := rfl
  rw [own] at self
  cases hs : x s with
  | ok v t =>
    rw [hs] at self
    have kept := congrArg State.output self.2
    exact kept
  | error interrupt t =>
    rw [hs] at self
    have kept := congrArg State.output self.2
    exact kept

/-! ## 3. Prints

The texts that a run prints are listed by recursion on the script, as its moments are. -/

/-- The texts that a script prints, given those that the tasks that it calls print. -/
def Script.prints (fuel : Nat) (tasks : Task → State → List String) {α : Type} :
    Script α → State → List String
  | .done _, _ => []
  | .act action next, s =>
    match action.run s with
    | .ok v s' => (next v).prints fuel tasks s'
    | .error _ _ => []
  | .call frame task next, s =>
    match frame.enter s with
    | .error _ => []
    | .ok inner =>
      tasks task inner ++
        match task.run fuel inner with
        | .ok v s' => (next v).prints fuel tasks (frame.leave s s')
        | .error _ _ => []

/-- The text that a task prints itself: a print that of its value, if the writer takes it. -/
def Task.ownPrints (fuel : Nat) : Task → State → List String
  | exec (.print _ value), s =>
    match Eval.eval fuel value s with
    | .ok v s' => if s'.output.takes (s'.heap.text v) then [s'.heap.text v] else []
    | .error _ _ => []
  | _, _ => []

/-- The texts that a task prints. -/
def Task.prints : (fuel : Nat) → Task → State → List String
  | 0, _, _ => []
  | fuel + 1, task, s => task.script.prints fuel (Task.prints fuel) s ++ task.ownPrints fuel s

/-! ## 4. Accounts

An account is put together as an evaluation is, so that two runs can be compared account by
account. -/

/-- What is to be said of an evaluation. -/
structure Account (α : Type) where
  result : EStateM.Result Interrupt State α
  moments : List Moment
  prints : List String

namespace Account

variable {α β : Type}

/-- An evaluation and then, if it gives an answer, another one. -/
def andThen (first : Account α) (next : α → State → Account β) : Account β :=
  match first.result with
  | .ok v s =>
    ⟨(next v s).result, first.moments ++ (next v s).moments, first.prints ++ (next v s).prints⟩
  | .error interrupt s => ⟨.error interrupt s, first.moments, first.prints⟩

/-- What is said of two evaluations is put together if the first gives an answer. -/
theorem andThen_of_ok {first : Account α} {v : α} {s : State} (ended : first.result = .ok v s)
    (next : α → State → Account β) :
    first.andThen next = ⟨(next v s).result, first.moments ++ (next v s).moments,
      first.prints ++ (next v s).prints⟩ := by
  rw [andThen, ended]

/-- Otherwise there is no second one. -/
theorem andThen_of_error {first : Account α} {interrupt : Interrupt} {s : State}
    (ended : first.result = .error interrupt s) (next : α → State → Account β) :
    first.andThen next = ⟨.error interrupt s, first.moments, first.prints⟩ := by
  rw [andThen, ended]

/-- An evaluation in a frame. -/
def inFrame (frame : Frame) (s : State) (inside : State → Account α) : Account α :=
  match frame.enter s with
  | .error interrupt => ⟨.error interrupt s, [], []⟩
  | .ok inner =>
    ⟨frame.leaveEnd s (inside inner).result, (inside inner).moments, (inside inner).prints⟩

/-- A frame that is refused ends the evaluation. -/
theorem inFrame_of_error {frame : Frame} {s : State} {interrupt : Interrupt}
    (refused : frame.enter s = .error interrupt) (inside : State → Account α) :
    inFrame frame s inside = ⟨.error interrupt s, [], []⟩ := by
  rw [inFrame, refused]

theorem inFrame_of_ok {frame : Frame} {s inner : State} (entered : frame.enter s = .ok inner)
    (inside : State → Account α) :
    inFrame frame s inside =
      ⟨frame.leaveEnd s (inside inner).result, (inside inner).moments, (inside inner).prints⟩ := by
  rw [inFrame, entered]

/-- The same evaluation with a writer that has no limit. -/
def unlimited (account : Account α) : Account α :=
  ⟨unlimitedEnd account.result, account.moments.map Moment.unlimited, account.prints⟩

/-- What there is to say at first stays. -/
theorem prefix_andThen (first : Account α) (next : α → State → Account β) :
    first.moments <+: (first.andThen next).moments ∧
      first.prints <+: (first.andThen next).prints := by
  unfold andThen
  split
  · exact ⟨List.prefix_append _ _, List.prefix_append _ _⟩
  · exact ⟨List.prefix_refl _, List.prefix_refl _⟩

end Account

/-- What is to be said of a task. -/
def Task.account (fuel : Nat) (task : Task) (s : State) : Account task.Answer :=
  ⟨task.run fuel s, task.trace fuel s, task.prints fuel s⟩

/-- How a task ends in a frame. -/
theorem Account.result_inFrame {frame : Frame} {fuel : Nat} {task : Task} {s : State} :
    (inFrame frame s (task.account fuel)).result = frame.around (task.run fuel) s := by
  cases entered : frame.enter s with
  | error interrupt => rw [inFrame_of_error entered, Frame.around_of_error entered]
  | ok inner => rw [inFrame_of_ok entered, Frame.around_of_ok entered, Task.account]

/-- What an act does: it opens a scope, or nothing is to be said of it. -/
def Act.account {α : Type} (action : Act α) (s : State) : Account α :=
  ⟨action.run s, match action with
    | .plain _ => []
    | .opening origin _ => [.opens origin s], []⟩

namespace Script

variable {α β : Type} (fuel : Nat)

/-- What is to be said of a script. -/
def account (script : Script α) (s : State) : Account α :=
  ⟨script.run (Task.run fuel) s, script.trace fuel (Task.trace fuel) s,
    script.prints fuel (Task.prints fuel) s⟩

/-- The account of a script that begins with an act. -/
theorem account_act (action : Act β) (next : β → Script α) (s : State) :
    (act action next).account fuel s =
      (action.account s).andThen fun v t => (next v).account fuel t := by
  cases action with
  | plain action =>
    unfold account Account.andThen Act.account
    simp only [run, trace, prints, Act.run]
    cases hs : action s with
    | ok v t =>
      rw [Eval.bind_of_ok hs]
      rfl
    | error interrupt t =>
      rw [Eval.bind_of_error hs]
  | opening origin enclosing => rfl

/-- The account of a script that calls a task. -/
theorem account_call (frame : Frame) (task : Task) (next : task.Answer → Script α) (s : State) :
    (call frame task next).account fuel s =
      (Account.inFrame frame s (task.account fuel)).andThen fun v t => (next v).account fuel t := by
  unfold account
  simp only [run, trace, prints]
  cases entered : frame.enter s with
  | error interrupt =>
    have around := Frame.around_of_error entered (task.run fuel)
    rw [Account.inFrame_of_error entered, Account.andThen, Eval.bind_of_error around]
  | ok inner =>
    have around := Frame.around_of_ok entered (task.run fuel)
    rw [Account.inFrame_of_ok entered, Account.andThen, Task.account]
    cases ran : task.run fuel inner with
    | ok v t =>
      rw [ran] at around
      rw [Eval.bind_of_ok around]
      simp only [ran, Frame.leaveEnd]
    | error interrupt t =>
      rw [ran] at around
      rw [Eval.bind_of_error around]
      simp only [ran, Frame.leaveEnd, List.append_nil]

end Script

/-- A task but a print passes the moment at which it begins, and does what its script says. -/
theorem Task.account_succ (fuel : Nat) {task : Task}
    (silent : ∀ line value, task ≠ .exec (.print line value)) (s : State) :
    task.account (fuel + 1) s =
      { task.script.account fuel s with
        moments := .begins (fuel + 1) task s :: (task.script.account fuel s).moments } := by
  have none : task.ownPrints fuel s = [] := by
    unfold ownPrints
    split
    · exact absurd rfl (silent _ _)
    · rfl
  rw [account, Script.account, run_succ, trace, prints, none, List.append_nil]

namespace Task

variable {fuel : Nat}

/-- Printing the text of a value. -/
def printing (v : Value) (line : Nat) (s : State) : Account Completion :=
  ⟨(do Eval.printValue v line; return Completion.normal : Eval Completion) s, [],
    if s.output.takes (s.heap.text v) then [s.heap.text v] else []⟩

/-- A print evaluates its value, and then prints the text of it. -/
theorem account_print (line : Nat) (e : Expr) (s : State) :
    (exec (.print line e)).account (fuel + 1) s =
      { (eval e).account fuel s with
        moments := .begins (fuel + 1) (exec (.print line e)) s ::
          ((eval e).account fuel s).moments }.andThen fun v t => printing v line t := by
  have ran : (exec (.print line e)).run (fuel + 1) s = (do
      Eval.printValue (← Eval.eval fuel e) line
      return Completion.normal : Eval Completion) s := by
    rw [run, Eval.exec]
  -- The script of a print evaluates the value, and then there is no task left to call.
  have script : execScript (.print line e) = .call .same (eval e) fun v =>
      .act (.plain (Eval.printValue v line)) fun _ => .done .normal := rfl
  have passed : (execScript (.print line e)).trace fuel (trace fuel) s = (eval e).trace fuel s := by
    rw [script]
    simp only [Script.trace, Frame.enter, run]
    cases Eval.eval fuel e s with
    | ok v t =>
      dsimp only
      cases Eval.printValue v line (Frame.same.leave s t) <;> exact List.append_nil _
    | error interrupt t => exact List.append_nil _
  have printed : (execScript (.print line e)).prints fuel (prints fuel) s =
      (eval e).prints fuel s := by
    rw [script]
    simp only [Script.prints, Frame.enter, run, Act.run]
    cases Eval.eval fuel e s with
    | ok v t =>
      dsimp only
      cases Eval.printValue v line (Frame.same.leave s t) <;> exact List.append_nil _
    | error interrupt t => exact List.append_nil _
  unfold account
  rw [ran, trace, prints, Task.script, passed, printed]
  unfold Account.andThen printing ownPrints run
  cases hs : Eval.eval fuel e s with
  | ok v t =>
    rw [Eval.bind_of_ok hs]
    simp only [hs, List.append_nil]
  | error interrupt t =>
    rw [Eval.bind_of_error hs]
    simp only [hs, List.append_nil]

end Task

end Lox
