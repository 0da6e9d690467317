/-
# Prefix form tells expressions apart

The prefix form of an expression is the text of a `Form`, which has one reading at most.  Which node
a form stands for can be seen from its head, or from the characters of an atom (`Form.tag`), since
the names of a program are no reserved words and no numbers.  So of two expressions that have been
read from programs and have the same prefix form, either is the other one with other ids and lines.

* §1 and §2 turn expressions into forms, and forms into texts.
* §3 and §4 go back: forms of one text are one form, and expressions of one form are alike.
* §5 is the result for the expressions of programs.

Main statement: `prefixForm_eq_iff`.
-/
import Mathlib
import Lox.Proofs.Syntax.Form
import Lox.Proofs.Syntax.Likeness
import Lox.Proofs.Syntax.Parts
import Lox.Proofs.Token.Respacing

namespace Lox

/-! ## 1. Texts of numbers

The text of a finite number has a limited set of characters, none of which is a letter, a quote or a
bracket. -/

namespace Decimal

/-- A number that is neither infinite nor undefined. -/
def IsFinite (x : Float) : Prop :=
  ∃ negative mantissa exponent, Binary.ofFloat x = .finite negative mantissa exponent

/-- A character of the text of a finite number. -/
def IsNumberChar (c : Char) : Prop := c.isDigit = true ∨ c = '.' ∨ c = '-'

/-- Noughts are characters of numbers. -/
theorem isNumberChar_of_mem_replicate {count : Nat} {c : Char}
    (h : c ∈ List.replicate count '0') : IsNumberChar c :=
  .inl (List.eq_of_mem_replicate h ▸ rfl)

theorem isNumberChar_of_mem_toDigits {n : Nat} {c : Char} (h : c ∈ Nat.toDigits 10 n) :
    IsNumberChar c :=
  .inl (Nat.isDigit_of_mem_toDigits (by decide) (by decide) h)

/-- A decimal is written with digits, a point and a sign. -/
theorem positional_chars (d : Decimal) :
    d.positional ≠ "" ∧ ∀ c ∈ d.positional.toList, IsNumberChar c := by
  obtain ⟨digits, _ | e⟩ := d
  · refine ⟨?_, ?_⟩
    · simp [positional, ← String.toList_eq_nil_iff, Nat.toDigits_ne_nil]
    · intro c mem
      simp only [positional, String.toList_ofList, List.mem_append] at mem
      exact mem.elim isNumberChar_of_mem_toDigits isNumberChar_of_mem_replicate
  · have padded : ∀ {zeros : Nat} {c : Char},
        c ∈ List.replicate zeros '0' ++ Nat.toDigits 10 digits → IsNumberChar c := fun mem =>
      (List.mem_append.1 mem).elim isNumberChar_of_mem_replicate isNumberChar_of_mem_toDigits
    refine ⟨by simp [positional, ← String.toList_eq_nil_iff], ?_⟩
    intro c mem
    simp only [positional, String.toList_ofList, List.mem_append, List.mem_cons] at mem
    rcases mem with whole | rfl | fraction
    · exact padded (List.mem_of_mem_take whole)
    · exact .inr (.inl rfl)
    · exact padded (List.mem_of_mem_drop fraction)

/-- So is every finite number. -/
theorem numberText_chars {x : Float} (finite : IsFinite x) :
    numberText x ≠ "" ∧ ∀ c ∈ (numberText x).toList, IsNumberChar c := by
  obtain ⟨negative, mantissa, exponent, found⟩ := finite
  have unsigned : ∀ {text : String}, text ≠ "" ∧ (∀ c ∈ text.toList, IsNumberChar c) →
      (if negative then "-" ++ text else text) ≠ "" ∧
        ∀ c ∈ (if negative then "-" ++ text else text).toList, IsNumberChar c := by
    rintro text ⟨nonempty, chars⟩
    cases negative with
    | false => exact ⟨nonempty, chars⟩
    | true =>
      refine ⟨by simp, fun c mem => ?_⟩
      rcases List.mem_append.1 (String.toList_append ▸ mem) with sign | rest
      · exact .inr (.inr (List.mem_singleton.1 sign))
      · exact chars c rest
  rw [numberText, found]
  refine unsigned ?_
  split
  · exact ⟨by decide, fun c mem => .inl (List.mem_singleton.1 mem ▸ rfl)⟩
  · exact positional_chars _

end Decimal

/-! ## 2. Expressions as forms

A form is an atom, a quoted text or a list.  That expressions print as forms is shown by recursion
on both. -/

/-- The form of a literal. -/
def Literal.form : Literal → Form
  | .nil => .atom "nil"
  | .boolean value => .atom (if value then "true" else "false")
  | .number value => .atom (Decimal.numberText value)
  | .string contents => .quoted contents

mutual

/-- The form of an expression. -/
def Expr.form : Expr → Form
  | .literal value => value.form
  | .grouping inner => .list "group" [inner.form]
  | .unary op _ operand => .list op.text [operand.form]
  | .binary op _ left right => .list op.text [left.form, right.form]
  | .logical op _ left right => .list op.text [left.form, right.form]
  | .variable v => .atom v.name.text
  | .assign target value => .list "assign" [.atom target.name.text, value.form]
  | .call callee arguments _ => .list "call" (callee.form :: Expr.forms arguments)
  | .get object property => .list "get" [object.form, .atom property.text]
  | .set object property value =>
    .list "set" [object.form, .atom property.text, value.form]
  | .this _ _ => .atom "this"
  | .super _ _ method => .list "super" [.atom method.text]
  | .list _ elements => .list "list" (Expr.forms elements)

/-- The forms of several expressions. -/
def Expr.forms : List Expr → List Form
  | [] => []
  | e :: es => e.form :: Expr.forms es

end

/-- The parts of a bracketed form, one behind the other. -/
theorem toList_bracketed_behind (parts : List Form) (text : String) :
    ((parts.map fun part => String.ofList part.text).foldl
        (fun text part => text ++ " " ++ part) text ++ ")").toList =
      text.toList ++ Form.textBehind parts := by
  induction parts generalizing text with
  | nil => simp [Form.textBehind]
  | cons part parts ih =>
    rw [List.map_cons, List.foldl_cons, ih]
    simp [Form.textBehind]

/-- What is in brackets is a form. -/
theorem bracketed_eq (head : String) (parts : List Form) :
    bracketed head (parts.map fun part => String.ofList part.text) =
      String.ofList (Form.list head parts).text := by
  rw [← String.toList_inj, bracketed, toList_bracketed_behind]
  simp [Form.text]

mutual

/-- Prefix form is the text of the form. -/
theorem Expr.prefixForm_eq : (e : Expr) → e.prefixForm = String.ofList e.form.text
  | .literal .nil | .literal (.boolean false) | .literal (.boolean true) => by
    simp [prefixForm, Literal.prefixForm, form, Literal.form, Form.text]
  | .literal (.number value) => by
    simp [prefixForm, Literal.prefixForm, form, Literal.form, Form.text]
  | .literal (.string contents) => by
    rw [← String.toList_inj]
    simp [prefixForm, Literal.prefixForm, form, Literal.form, Form.text]
  | .grouping inner => by
    rw [prefixForm, inner.prefixForm_eq]
    exact bracketed_eq "group" [inner.form]
  | .unary op _ operand => by
    rw [prefixForm, operand.prefixForm_eq]
    exact bracketed_eq op.text [operand.form]
  | .binary op _ left right => by
    rw [prefixForm, left.prefixForm_eq, right.prefixForm_eq]
    exact bracketed_eq op.text [left.form, right.form]
  | .logical op _ left right => by
    rw [prefixForm, left.prefixForm_eq, right.prefixForm_eq]
    exact bracketed_eq op.text [left.form, right.form]
  | .variable v => by simp [prefixForm, form, Form.text]
  | .assign target value => by
    have parts := bracketed_eq "assign" [.atom target.name.text, value.form]
    rw [prefixForm, value.prefixForm_eq]
    simpa [Form.text, form] using parts
  | .call callee arguments _ => by
    rw [prefixForm, callee.prefixForm_eq, Expr.prefixForms_eq arguments]
    exact bracketed_eq "call" (callee.form :: Expr.forms arguments)
  | .get object property => by
    have parts := bracketed_eq "get" [object.form, .atom property.text]
    rw [prefixForm, object.prefixForm_eq]
    simpa [Form.text, form] using parts
  | .set object property value => by
    have parts := bracketed_eq "set" [object.form, .atom property.text, value.form]
    rw [prefixForm, object.prefixForm_eq, value.prefixForm_eq]
    simpa [Form.text, form] using parts
  | .this _ _ => by simp [prefixForm, form, Form.text]
  | .super _ _ method => by
    have parts := bracketed_eq "super" [.atom method.text]
    rw [prefixForm]
    simpa [Form.text, form] using parts
  | .list _ elements => by
    rw [prefixForm, Expr.prefixForms_eq elements]
    exact bracketed_eq "list" (Expr.forms elements)

theorem Expr.prefixForms_eq : (es : List Expr) →
    prefixForms es = (Expr.forms es).map fun part => String.ofList part.text
  | [] => rfl
  | e :: es => by
    rw [prefixForms, e.prefixForm_eq, Expr.prefixForms_eq es]
    rfl

end

/-! ## 3. Forms of one text

A form ends where its brackets close or its atom stops.  So a text has at most one form at its
front. -/

/-- A name is a word that is not reserved. -/
theorem Lexeme.of_identifier {text : List Char} (h : Lexeme text .identifier) :
    IsWord text ∧ ∀ keyword : Keyword, keyword.text.toList ≠ text := by
  cases h with
  | identifier word free => exact ⟨word, free⟩

namespace Form

/-- What is so for the characters of a text can be found out by going through them. -/
theorem forall_of_all {P : Char → Prop} [DecidablePred P] {text : String}
    (h : text.toList.all (fun c => P c) = true) : ∀ c ∈ text.toList, P c :=
  fun c mem => of_decide_eq_true (List.all_eq_true.1 h c mem)

/-- No character of a name ends an atom. -/
theorem isAtomChar_of_isNameRest {c : Char} (rest : isNameRest c = true) : IsAtomChar c := by
  refine ⟨⟨?_, ?_⟩, ?_, ?_⟩ <;> rintro rfl <;> revert rest <;> decide

/-- Nor does one of a number. -/
theorem isAtomChar_of_isNumberChar {c : Char} (number : Decimal.IsNumberChar c) :
    IsAtomChar c := by
  rcases number with digit | rfl | rfl
  · exact isAtomChar_of_isNameRest (by simp [isNameRest, Char.isAlphanum, digit])
  · decide
  · decide

/-- A name can be read. -/
theorem legible_name {text : String} (name : Lexeme text.toList .identifier) :
    Legible (.atom text) := by
  obtain ⟨word, -⟩ := name.of_identifier
  refine .atom ?_ fun c mem => isAtomChar_of_isNameRest (word.isNameRest c mem)
  rintro rfl
  cases word

end Form

/-- A literal can be read back if it is finite, and if there is no quote in its text. -/
theorem Literal.legible_form (value : Literal)
    (clear : (Expr.literal value).Clear Decimal.IsFinite) : value.form.Legible := by
  have token := clear value.kind.token (by simp [Expr.tokens])
  rcases value with _ | (_ | _) | value | contents
  · exact .atom (by decide) (Form.forall_of_all rfl)
  · exact .atom (by decide) (Form.forall_of_all rfl)
  · exact .atom (by decide) (Form.forall_of_all rfl)
  · obtain ⟨nonempty, chars⟩ := Decimal.numberText_chars (token.number value rfl)
    exact .atom nonempty fun c mem => Form.isAtomChar_of_isNumberChar (chars c mem)
  · exact .quoted (token.string contents rfl)

mutual

/-- The form of a clear expression can be read. -/
theorem Expr.legible_form : (e : Expr) → e.Clear Decimal.IsFinite → e.form.Legible
  | .literal value, clear => value.legible_form clear
  | .grouping inner, clear => .list (Form.forall_of_all rfl)
    (.cons (inner.legible_form clear.grouping) .nil)
  | .unary op _ operand, clear =>
    .list (Form.forall_of_all (by cases op <;> rfl)) (.cons (operand.legible_form clear.unary) .nil)
  | .binary op _ left right, clear => .list (Form.forall_of_all (by cases op <;> rfl))
    (.cons (left.legible_form clear.binary.1) (.cons (right.legible_form clear.binary.2) .nil))
  | .logical op _ left right, clear => .list (Form.forall_of_all (by cases op <;> rfl))
    (.cons (left.legible_form clear.logical.1) (.cons (right.legible_form clear.logical.2) .nil))
  | .variable v, clear => Form.legible_name clear.occurrence
  | .assign target value, clear => .list (Form.forall_of_all rfl)
    (.cons (Form.legible_name clear.assign.1) (.cons (value.legible_form clear.assign.2) .nil))
  | .call callee arguments _, clear => .list (Form.forall_of_all rfl)
    (.cons (callee.legible_form clear.call.1) (Expr.legible_forms arguments clear.call.2))
  | .get object property, clear => .list (Form.forall_of_all rfl)
    (.cons (object.legible_form clear.get.1) (.cons (Form.legible_name clear.get.2) .nil))
  | .set object property value, clear => .list (Form.forall_of_all rfl)
    (.cons (object.legible_form clear.set.1) (.cons (Form.legible_name clear.set.2.1)
      (.cons (value.legible_form clear.set.2.2) .nil)))
  | .this _ _, _ => .atom (by decide) (Form.forall_of_all rfl)
  | .super _ _ method, clear => .list (Form.forall_of_all rfl)
    (.cons (Form.legible_name clear.super) .nil)
  | .list _ elements, clear => .list (Form.forall_of_all rfl)
    (Expr.legible_forms elements clear.list)

theorem Expr.legible_forms : (es : List Expr) → (∀ e ∈ es, e.Clear Decimal.IsFinite) →
    Form.LegibleAll (Expr.forms es)
  | [], _ => .nil
  | e :: es, clear => .cons (e.legible_form (clear e List.mem_cons_self))
    (Expr.legible_forms es fun e' mem => clear e' (List.mem_cons_of_mem e mem))

end

/-- Prefix form tells forms apart. -/
theorem Expr.form_eq_of_prefixForm_eq {e e' : Expr} (clear : e.Clear Decimal.IsFinite)
    (clear' : e'.Clear Decimal.IsFinite) (same : e.prefixForm = e'.prefixForm) :
    e.form = e'.form := by
  rw [prefixForm_eq, prefixForm_eq, String.ofList_inj] at same
  have whole : e.form.text ++ [] = e'.form.text ++ [] := by rw [same]
  exact (Form.eq_of_append_eq (e.legible_form clear) (e'.legible_form clear') whole nofun nofun).1

/-! ## 4. Expressions of one form

The node is seen from the form, and its parts are compared one by one. -/

/-- What a form shows of the node that it stands for: of a literal all but the value of a number,
and of the other nodes which they are. -/
inductive Tag where
  | literal (known : Option Literal)
  | unary (op : UnaryOp) | binary (op : BinaryOp) | logical (op : LogicalOp)
  | grouping | name | assign | call | get | set | this | super | list

/-- The node that a head stands for; a minus can be one of two. -/
def Tag.ofHead (head : String) (single : Bool) : Tag :=
  match head with
  | "-" => if single then .unary .negate else .binary .subtract
  | "!" => .unary .not
  | "==" => .binary .equal
  | "!=" => .binary .notEqual
  | ">" => .binary .greater
  | ">=" => .binary .greaterEqual
  | "<" => .binary .less
  | "<=" => .binary .lessEqual
  | "+" => .binary .add
  | "*" => .binary .multiply
  | "/" => .binary .divide
  | "and" => .logical .and
  | "or" => .logical .or
  | "group" => .grouping
  | "assign" => .assign
  | "call" => .call
  | "get" => .get
  | "set" => .set
  | "super" => .super
  | _ => .list

/-- The node that a form stands for. -/
def Form.tag : Form → Tag
  | .atom text =>
    match Keyword.ofText? text with
    | some .nil => .literal (some .nil)
    | some .true => .literal (some (.boolean true))
    | some .false => .literal (some (.boolean false))
    | some .this => .this
    | _ => if text.toList.any isNameStart then .name else .literal none
  | .quoted contents => .literal (some (.string contents))
  | .list head parts => .ofHead head (parts.length == 1)

/-- A literal that is no number. -/
def Literal.known? : Literal → Option Literal
  | .number _ => none
  | value => some value

/-- What the form of an expression shows of its node. -/
def Expr.tag : Expr → Tag
  | .literal value => .literal value.known?
  | .grouping _ => .grouping
  | .unary op _ _ => .unary op
  | .binary op _ _ _ => .binary op
  | .logical op _ _ _ => .logical op
  | .variable _ => .name
  | .assign _ _ => .assign
  | .call _ _ _ => .call
  | .get _ _ => .get
  | .set _ _ _ => .set
  | .this _ _ => .this
  | .super _ _ _ => .super
  | .list _ _ => .list

/-- The form of a name looks like no other atom. -/
theorem Form.tag_name {text : String} (name : Lexeme text.toList .identifier) :
    (Form.atom text).tag = .name := by
  obtain ⟨word, free⟩ := name.of_identifier
  have none : Keyword.ofText? text = none := by
    cases found : Keyword.ofText? text with
    | none => rfl
    | some keyword => exact absurd (by rw [Keyword.text_of_ofText? found]) (free keyword)
  have start : text.toList.any isNameStart = true := by
    generalize text.toList = chars at word
    obtain ⟨start, -⟩ := word
    simp [start]
  simp [tag, none, start]

/-- So does the form of a number. -/
theorem Form.tag_number {x : Float} (finite : Decimal.IsFinite x) :
    (Form.atom (Decimal.numberText x)).tag = .literal none := by
  obtain ⟨-, chars⟩ := Decimal.numberText_chars finite
  have no : ∀ c ∈ (Decimal.numberText x).toList, ¬ isNameStart c = true := by
    intro c mem start
    rcases chars c mem with digit | rfl | rfl
    · exact not_isDigit_of_isNameStart start digit
    · cases start
    · cases start
  have none : Keyword.ofText? (Decimal.numberText x) = none := by
    cases found : Keyword.ofText? (Decimal.numberText x) with
    | none => rfl
    | some keyword =>
      have word := Keyword.text_of_ofText? found ▸ keyword.isWord
      revert word no
      generalize (Decimal.numberText x).toList = text
      rintro no ⟨start, -⟩
      exact absurd start (no _ List.mem_cons_self)
  have outside : (Decimal.numberText x).toList.any isNameStart = false := by
    simpa using no
  simp [tag, none, outside]

/-- The node of an expression can be seen from its form. -/
theorem Expr.tag_form : (e : Expr) → e.Clear Decimal.IsFinite → e.form.tag = e.tag
  | .literal .nil, _ | .literal (.boolean false), _ | .literal (.boolean true), _ => rfl
  | .literal (.number value), clear => Form.tag_number <|
    (clear (Kind.token (.number value)) (by simp [tokens, Literal.kind])).number value rfl
  | .literal (.string _), _ => rfl
  | .grouping _, _ => rfl
  | .unary op _ _, _ => by cases op <;> rfl
  | .binary op _ _ _, _ => by cases op <;> rfl
  | .logical op _ _ _, _ => by cases op <;> rfl
  | .variable _, clear => Form.tag_name clear.occurrence
  | .assign _ _, _ | .call _ _ _, _ | .get _ _, _ | .set _ _ _, _ | .this _ _, _
  | .super _ _ _, _ | .list _ _, _ => rfl

/-- Names of one text are alike. -/
theorem Name.Alike.of_text {name name' : Name} (same : name.text = name'.text) :
    name.Alike .shape name' :=
  ⟨same, trivial⟩

/-- Numbers of two kinds are finite, and known by their texts. -/
structure Decimal.Told (Q Q' : Float → Prop) : Prop where
  finite : ∀ x, Q x → IsFinite x
  finite' : ∀ x, Q' x → IsFinite x
  distinct : ∀ x y, Q x → Q' y → numberText x = numberText y → x = y

variable {Q Q' : Float → Prop}

/-- Literals of one form are the same. -/
theorem Literal.eq_of_form (told : Decimal.Told Q Q') {value value' : Literal}
    (clear : (Expr.literal value).Clear Q) (clear' : (Expr.literal value').Clear Q')
    (same : value.form = value'.form) (known : value.known? = value'.known?) : value = value' := by
  cases value with
  | number x =>
    cases value' with
    | number y =>
      have token := clear (Kind.token (.number x)) (by simp [Expr.tokens, kind])
      have token' := clear' (Kind.token (.number y)) (by simp [Expr.tokens, kind])
      rw [told.distinct x y (token.number x rfl) (token'.number y rfl) (Form.atom.inj same)]
    | _ => cases known
  | _ =>
    cases value' <;> cases known
    rfl

mutual

/-- Expressions of one form are alike. -/
theorem Expr.alike_of_form (told : Decimal.Told Q Q') (e e' : Expr) (clear : e.Clear Q)
    (clear' : e'.Clear Q') (same : e.form = e'.form) : e.Alike .shape e' := by
  have tags : e.tag = e'.tag := by
    rw [← e.tag_form (clear.mono told.finite), ← e'.tag_form (clear'.mono told.finite'), same]
  -- One node is left for `e'`, the one that `e` has.
  cases e with
  | literal value =>
    cases e' with
    | literal value' =>
      have known := Tag.literal.inj tags
      cases Literal.eq_of_form told clear clear' same known
      exact .literal value
    | _ => cases tags
  | grouping inner =>
    cases e' <;> cases tags
    simp only [form, Form.list.injEq, List.cons.injEq, true_and, and_true] at same
    exact .grouping (inner.alike_of_form told _ clear.grouping clear'.grouping same)
  | unary op line operand =>
    cases e' <;> cases tags
    simp only [form, Form.list.injEq, List.cons.injEq, true_and, and_true] at same
    exact .unary trivial (operand.alike_of_form told _ clear.unary clear'.unary same)
  | binary op line left right =>
    cases e' <;> cases tags
    simp only [form, Form.list.injEq, List.cons.injEq, true_and, and_true] at same
    exact .binary trivial (left.alike_of_form told _ clear.binary.1 clear'.binary.1 same.1)
      (right.alike_of_form told _ clear.binary.2 clear'.binary.2 same.2)
  | logical op line left right =>
    cases e' <;> cases tags
    simp only [form, Form.list.injEq, List.cons.injEq, true_and, and_true] at same
    exact .logical trivial (left.alike_of_form told _ clear.logical.1 clear'.logical.1 same.1)
      (right.alike_of_form told _ clear.logical.2 clear'.logical.2 same.2)
  | «variable» v =>
    cases e' <;> cases tags
    exact .variable ⟨trivial, .of_text (Form.atom.inj same)⟩
  | assign target value =>
    cases e' <;> cases tags
    simp only [form, Form.list.injEq, Form.atom.injEq, List.cons.injEq, true_and, and_true] at same
    exact .assign ⟨trivial, .of_text same.1⟩
      (value.alike_of_form told _ clear.assign.2 clear'.assign.2 same.2)
  | call callee arguments line =>
    cases e' <;> cases tags
    simp only [form, Form.list.injEq, List.cons.injEq, true_and] at same
    exact .call (callee.alike_of_form told _ clear.call.1 clear'.call.1 same.1)
      (Expr.alikeAll_of_forms told arguments _ clear.call.2 clear'.call.2 same.2) trivial
  | get object property =>
    cases e' <;> cases tags
    simp only [form, Form.list.injEq, Form.atom.injEq, List.cons.injEq, true_and, and_true] at same
    exact .get (object.alike_of_form told _ clear.get.1 clear'.get.1 same.1) (.of_text same.2)
  | set object property value =>
    cases e' <;> cases tags
    simp only [form, Form.list.injEq, Form.atom.injEq, List.cons.injEq, true_and, and_true] at same
    exact .set (object.alike_of_form told _ clear.set.1 clear'.set.1 same.1) (.of_text same.2.1)
      (value.alike_of_form told _ clear.set.2.2 clear'.set.2.2 same.2.2)
  | this id line =>
    cases e' <;> cases tags
    exact .this trivial trivial
  | super id line method =>
    cases e' <;> cases tags
    simp only [form, Form.list.injEq, Form.atom.injEq, List.cons.injEq, true_and, and_true] at same
    exact .super trivial trivial (.of_text same)
  | list line elements =>
    cases e' <;> cases tags
    simp only [form, Form.list.injEq, true_and] at same
    exact .list trivial (Expr.alikeAll_of_forms told elements _ clear.list clear'.list same)

/-- Expressions of the same forms are alike one by one. -/
theorem Expr.alikeAll_of_forms (told : Decimal.Told Q Q') (es es' : List Expr)
    (clear : ∀ e ∈ es, e.Clear Q) (clear' : ∀ e ∈ es', e.Clear Q')
    (same : Expr.forms es = Expr.forms es') : Expr.AlikeAll .shape es es' := by
  match es, es' with
  | [], [] => exact .nil
  | [], _ :: _ | _ :: _, [] => cases same
  | e :: es, e' :: es' =>
    simp only [forms, List.cons.injEq] at same
    exact .cons
      (e.alike_of_form told e' (clear e List.mem_cons_self) (clear' e' List.mem_cons_self) same.1)
      (Expr.alikeAll_of_forms told es es' (fun e mem => clear e (List.mem_cons_of_mem _ mem))
        (fun e mem => clear' e (List.mem_cons_of_mem _ mem)) same.2)

end

mutual

/-- Expressions that are alike have one prefix form. -/
theorem Expr.Alike.prefixForm_eq {m : Likeness} {e e' : Expr} :
    e.Alike m e' → e.prefixForm = e'.prefixForm
  | .literal _ => rfl
  | .grouping inner => by rw [Expr.prefixForm, Expr.prefixForm, inner.prefixForm_eq]
  | .unary _ operand => by rw [Expr.prefixForm, Expr.prefixForm, operand.prefixForm_eq]
  | .binary _ left right => by
    rw [Expr.prefixForm, Expr.prefixForm, left.prefixForm_eq, right.prefixForm_eq]
  | .logical _ left right => by
    rw [Expr.prefixForm, Expr.prefixForm, left.prefixForm_eq, right.prefixForm_eq]
  | .variable occurrence => by rw [Expr.prefixForm, Expr.prefixForm, occurrence.name.text]
  | .assign target value => by
    rw [Expr.prefixForm, Expr.prefixForm, target.name.text, value.prefixForm_eq]
  | .call callee arguments _ => by
    rw [Expr.prefixForm, Expr.prefixForm, callee.prefixForm_eq, arguments.prefixForms_eq]
  | .get object property => by
    rw [Expr.prefixForm, Expr.prefixForm, object.prefixForm_eq, property.text]
  | .set object property value => by
    rw [Expr.prefixForm, Expr.prefixForm, object.prefixForm_eq, property.text, value.prefixForm_eq]
  | .this _ _ => rfl
  | .super _ _ method => by rw [Expr.prefixForm, Expr.prefixForm, method.text]
  | .list _ elements => by rw [Expr.prefixForm, Expr.prefixForm, elements.prefixForms_eq]

theorem Expr.AlikeAll.prefixForms_eq {m : Likeness} {es es' : List Expr} :
    Expr.AlikeAll m es es' → prefixForms es = prefixForms es'
  | .nil => rfl
  | .cons first rest => by
    rw [prefixForms, prefixForms, first.prefixForm_eq, rest.prefixForms_eq]

end

/-! ## 5. Expressions of programs

Names and strings of programs are such that all of this applies. -/

/-- The number that a kind of token stands for. -/
def Kind.number? : Kind → Option Float
  | .number value => some value
  | _ => none

/-- The number literals of an expression. -/
def Expr.numbers (e : Expr) : List Float := e.tokens.filterMap fun token => token.kind.number?

/-- The numbers of an expression are among its tokens. -/
theorem Expr.Clear.with_numbers {e : Expr} (clear : e.Clear fun _ => True)
    (finite : ∀ x ∈ e.numbers, Decimal.IsFinite x) :
    e.Clear fun x => x ∈ e.numbers ∧ Decimal.IsFinite x := by
  intro token mem
  refine ⟨(clear token mem).name, (clear token mem).string, fun value number => ?_⟩
  have stands : value ∈ e.numbers := List.mem_filterMap.2 ⟨token, mem, by rw [number]; rfl⟩
  exact ⟨stands, finite value stands⟩

/-- **Prefix form is unambiguous.**  Two expressions that have been read, each anywhere in a program
and without an infinite number in it, have the same prefix form if and only if they are the same
tree up to ids and lines; provided that the texts of different numbers in them differ. -/
theorem prefixForm_eq_iff {source source' : String} {stream stream' : TokenStream}
    {program program' : List Stmt} {firstId firstId' : Id} {e e' : Expr}
    (scanned : scan source = .ok stream) (parsed : (parse stream firstId).result = .ok program)
    (scanned' : scan source' = .ok stream')
    (parsed' : (parse stream' firstId').result = .ok program')
    (stands : e ∈ Stmt.allExpressions program) (stands' : e' ∈ Stmt.allExpressions program')
    (finite : ∀ x ∈ e.numbers, Decimal.IsFinite x) (finite' : ∀ x ∈ e'.numbers, Decimal.IsFinite x)
    (distinct : ∀ x ∈ e.numbers, ∀ y ∈ e'.numbers,
      Decimal.numberText x = Decimal.numberText y → x = y) :
    e.prefixForm = e'.prefixForm ↔ e.Alike .shape e' := by
  have clear := (clear_of_parse scanned parsed e stands).with_numbers finite
  have clear' := (clear_of_parse scanned' parsed' e' stands').with_numbers finite'
  have told : Decimal.Told (fun x => x ∈ e.numbers ∧ Decimal.IsFinite x)
      (fun x => x ∈ e'.numbers ∧ Decimal.IsFinite x) :=
    ⟨fun _ h => h.2, fun _ h => h.2, fun x y h h' => distinct x h.1 y h'.1⟩
  constructor
  · intro same
    refine Expr.alike_of_form told e e' clear clear' (Expr.form_eq_of_prefixForm_eq ?_ ?_ same)
    · exact clear.mono fun _ h => h.2
    · exact clear'.mono fun _ h => h.2
  · exact Expr.Alike.prefixForm_eq

/-- One sum, laid out in two ways. -/
theorem layout_is_not_printed :
    ∃ e e' : Expr, e.prefixForm = "(+ (call f 0 (- x)) y)" ∧
      (e.prefixForm = e'.prefixForm ↔ e.Alike .shape e') ∧ e.prefixForm = e'.prefixForm := by
  obtain ⟨stream, e, scanned, parsed, zero, form⟩ : ∃ stream e,
      scan "f(0, -x) + y;" = .ok stream ∧ (parse stream 0).result = .ok [.expression e] ∧
        e.numbers = [0] ∧ e.prefixForm = "(+ (call f 0 (- x)) y)" :=
    ⟨_, _, by cbv, by cbv, by decide +kernel, by decide +kernel⟩
  obtain ⟨stream', e', scanned', parsed', zero', form'⟩ : ∃ stream e,
      scan "f\n(0, - x)\n+y;" = .ok stream ∧ (parse stream 7).result = .ok [.expression e] ∧
        e.numbers = [0] ∧ e.prefixForm = "(+ (call f 0 (- x)) y)" :=
    ⟨_, _, by cbv, by cbv, by decide +kernel, by decide +kernel⟩
  have finite : ∀ x ∈ ([0] : List Float), Decimal.IsFinite x :=
    List.forall_mem_singleton.2 ⟨false, 0, -1074, by decide +kernel⟩
  refine ⟨e, e', form, ?_, form.trans form'.symm⟩
  refine prefixForm_eq_iff scanned parsed scanned' parsed' ?_ ?_ (zero ▸ finite) (zero' ▸ finite) ?_
  · exact List.mem_append_left _ e.mem_parts_self
  · exact List.mem_append_left _ e'.mem_parts_self
  · rw [zero, zero']
    simp

end Lox
