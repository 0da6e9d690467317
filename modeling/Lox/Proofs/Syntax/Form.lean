/-
# Bracketed forms

A text in prefix form is an atom, a text between quotes, or a head with parts between parentheses.
Such a text shows what it is by its first character, and where it ends by the first character that
cannot belong to it: an atom at a space or a closing parenthesis, a quoted text at its second quote,
and a list at its own closing parenthesis, which is found once its parts have been read.  So a text
has one reading at most, whatever follows it (`Form.eq_of_append_eq`).
-/
import Lox.Syntax.PrefixForm

namespace Lox

/-- What a text in prefix form shows. -/
inductive Form where
  | atom (text : String)
  | quoted (contents : String)
  | list (head : String) (parts : List Form)

namespace Form

mutual

/-- The text of a form. -/
def text : Form → List Char
  | atom text => text.toList
  | quoted contents => '"' :: contents.toList ++ ['"']
  | list head parts => '(' :: head.toList ++ textBehind parts

/-- The text of the parts behind a head, up to and with the closing parenthesis. -/
def textBehind : List Form → List Char
  | [] => [')']
  | part :: parts => ' ' :: part.text ++ textBehind parts

end

/-! ## 1. Forms that can be read -/

/-- A character that can be part of a head. -/
def IsHeadChar (c : Char) : Prop := c ≠ ' ' ∧ c ≠ ')'

/-- A character that can be part of an atom. -/
def IsAtomChar (c : Char) : Prop := IsHeadChar c ∧ c ≠ '(' ∧ c ≠ '"'

instance : DecidablePred IsHeadChar := fun _ => inferInstanceAs (Decidable (_ ∧ _))

instance : DecidablePred IsAtomChar := fun _ => inferInstanceAs (Decidable (_ ∧ _))

mutual

/-- Atoms, quoted texts and heads have no character in them with which they would end earlier. -/
inductive Legible : Form → Prop
  | atom {text : String} (nonempty : text ≠ "") (chars : ∀ c ∈ text.toList, IsAtomChar c) :
      Legible (atom text)
  | quoted {contents : String} (closed : '"' ∉ contents.toList) : Legible (quoted contents)
  | list {head : String} {parts : List Form} (chars : ∀ c ∈ head.toList, IsHeadChar c)
      (all : LegibleAll parts) : Legible (list head parts)

inductive LegibleAll : List Form → Prop
  | nil : LegibleAll []
  | cons {part : Form} {parts : List Form} (first : Legible part) (rest : LegibleAll parts) :
      LegibleAll (part :: parts)

end

/-! ## 2. Where texts end -/

/-- A text that is over, or goes on with a character of some kind. -/
def GoesOn (P : Char → Prop) (rest : List Char) : Prop := ∀ c ∈ rest.head?, P c

/-- A text of one kind of characters ends where another kind begins. -/
theorem append_inj {P : Char → Prop} {front front' rest rest' : List Char}
    (same : front ++ rest = front' ++ rest') (all : ∀ c ∈ front, P c) (all' : ∀ c ∈ front', P c)
    (stops : GoesOn (fun c => ¬ P c) rest) (stops' : GoesOn (fun c => ¬ P c) rest') :
    front = front' ∧ rest = rest' := by
  induction front generalizing front' with
  | nil =>
    cases front' with
    | nil => exact ⟨rfl, same⟩
    | cons c front' =>
      rw [List.nil_append] at same
      rw [same] at stops
      exact absurd (all' c List.mem_cons_self) (stops c rfl)
  | cons c front ih =>
    cases front' with
    | nil =>
      rw [List.nil_append] at same
      rw [← same] at stops'
      exact absurd (all c List.mem_cons_self) (stops' c rfl)
    | cons d front' =>
      rw [List.cons_append, List.cons_append, List.cons.injEq] at same
      obtain ⟨rfl, same⟩ := same
      obtain ⟨rfl, rest⟩ := ih same (fun e mem => all e (List.mem_cons_of_mem _ mem))
        fun e mem => all' e (List.mem_cons_of_mem _ mem)
      exact ⟨rfl, rest⟩

/-- What can follow a form. -/
abbrev Delimits (rest : List Char) : Prop := GoesOn (fun c => ¬ IsHeadChar c) rest

theorem delimits_textBehind (parts : List Form) (rest : List Char) :
    Delimits (textBehind parts ++ rest) := by
  cases parts with
  | nil =>
    rintro c ⟨⟩
    exact fun h => h.2 rfl
  | cons part parts =>
    rintro c ⟨⟩
    exact fun h => h.1 rfl

/-- An atom begins like an atom. -/
theorem isAtomChar_of_append_eq {text : String} {c : Char} {rest rest' : List Char}
    (nonempty : text ≠ "") (chars : ∀ c ∈ text.toList, IsAtomChar c)
    (same : text.toList ++ rest = c :: rest') : IsAtomChar c := by
  cases spelt : text.toList with
  | nil => exact absurd (String.toList_eq_nil_iff.1 spelt) nonempty
  | cons d more =>
    rw [spelt] at same chars
    obtain rfl := (List.cons.inj same).1
    exact chars d List.mem_cons_self

/-! ## 3. Unique reading -/

mutual

/-- **A form is known by its text**, and so is what follows it. -/
theorem eq_of_append_eq {f g : Form} {rest rest' : List Char} (hf : f.Legible) (hg : g.Legible)
    (same : f.text ++ rest = g.text ++ rest') (stops : Delimits rest) (stops' : Delimits rest') :
    f = g ∧ rest = rest' := by
  have ends : ∀ {rest : List Char}, Delimits rest → GoesOn (fun c => ¬ IsAtomChar c) rest :=
    fun stops c mem atom => stops c mem atom.1
  cases hf with
  | atom nonempty chars =>
    cases hg with
    | atom nonempty' chars' =>
      obtain ⟨texts, rests⟩ := append_inj same chars chars' (ends stops) (ends stops')
      exact ⟨congrArg atom (String.toList_inj.1 texts), rests⟩
    | quoted closed => exact absurd rfl (isAtomChar_of_append_eq nonempty chars same).2.2
    | list chars' all => exact absurd rfl (isAtomChar_of_append_eq nonempty chars same).2.1
  | quoted closed =>
    cases hg with
    | atom nonempty chars => exact absurd rfl (isAtomChar_of_append_eq nonempty chars same.symm).2.2
    | quoted closed' =>
      have open_ : ∀ {contents : String}, '"' ∉ contents.toList → ∀ c ∈ contents.toList, c ≠ '"' :=
        fun closed c mem quote => closed (quote ▸ mem)
      simp only [text, List.cons_append, List.append_assoc, List.cons.injEq, true_and] at same
      obtain ⟨contents, rests⟩ := append_inj same (open_ closed) (open_ closed')
        (by rintro c ⟨⟩ other; exact other rfl) (by rintro c ⟨⟩ other; exact other rfl)
      exact ⟨congrArg quoted (String.toList_inj.1 contents), (List.cons.inj rests).2⟩
    | list chars all => exact absurd (List.cons.inj same).1 (by decide)
  | list chars all =>
    cases hg with
    | atom nonempty chars => exact absurd rfl (isAtomChar_of_append_eq nonempty chars same.symm).2.1
    | quoted closed => exact absurd (List.cons.inj same).1 (by decide)
    | list chars' all' =>
      simp only [text, List.cons_append, List.append_assoc, List.cons.injEq, true_and] at same
      obtain ⟨heads, behind⟩ := append_inj same chars chars' (delimits_textBehind _ _)
        (delimits_textBehind _ _)
      obtain ⟨rfl, rests⟩ := parts_eq_of_append_eq all all' behind
      exact ⟨congrArg (list · _) (String.toList_inj.1 heads), rests⟩

theorem parts_eq_of_append_eq {fs gs : List Form} {rest rest' : List Char} (hf : LegibleAll fs)
    (hg : LegibleAll gs) (same : textBehind fs ++ rest = textBehind gs ++ rest') :
    fs = gs ∧ rest = rest' := by
  cases hf with
  | nil =>
    cases hg with
    | nil => exact ⟨rfl, (List.cons.inj same).2⟩
    | cons first others => exact absurd (List.cons.inj same).1 (by decide)
  | cons first others =>
    cases hg with
    | nil => exact absurd (List.cons.inj same).1 (by decide)
    | cons first' others' =>
      simp only [textBehind, List.cons_append, List.append_assoc, List.cons.injEq, true_and] at same
      obtain ⟨rfl, behind⟩ := eq_of_append_eq first first' same (delimits_textBehind _ _)
        (delimits_textBehind _ _)
      obtain ⟨rfl, rests⟩ := parts_eq_of_append_eq others others' behind
      exact ⟨rfl, rests⟩

end

end Form

end Lox
