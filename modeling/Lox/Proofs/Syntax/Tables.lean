/-
# The tables of the reader and of the grammar

The reader looks up in tables of its own which operators are on a level, which level is the next
tighter one, which tree an operator makes and what a `for` loop stands for.  The grammar says all
this itself, and it is the same (§1).

The next token goes on with an expression only if it binds tightly enough: the operators of a level
bind more tightly than those of a looser one, and the marks that end a phrase do not bind at all
(§2).
-/
import Lox.Proofs.Syntax.Extent
import Lox.Syntax.Parse

namespace Lox

/-! ## 1. The same tables

Each of the reader's tables is compared with the grammar entry by entry. -/

section Tables

variable {level level' : Level}

/-- **The operators of a level are the same.** -/
theorem Grammar.stands_iff {kind : Kind} {op : Operator} :
    Stands level kind op ↔ level.operator? kind = some op := by
  constructor
  · intro h
    cases h <;> rfl
  · intro h
    unfold Level.operator? at h
    split at h <;> cases h <;> constructor

/-- **So is the next tighter level**, if there is one. -/
theorem Grammar.tighter_iff : Tighter level level' ↔ level.tighter? = some level' := by
  constructor
  · intro h
    cases h <;> rfl
  · intro h
    cases level <;> cases h <;> constructor

/-- The tightest level is that of products. -/
theorem Level.tighter?_eq_none : level.tighter? = none ↔ level = .product := by
  cases level <;> simp [tighter?]

/-- **The reader makes the same trees of operands.** -/
theorem Grammar.joined_eq (line : Nat) (left right : Expr) (op : Operator) :
    joined line left right op = op.apply line left right := by
  cases op <;> rfl

/-- **The reader makes the same loops of `for` loops.** -/
theorem Grammar.loop_eq (first : Option Stmt) (condition : Expr) (increment : Option Expr)
    (body : Stmt) :
    loop first condition increment body = Parse.forLoop first condition increment body := by
  cases first <;> cases increment <;> rfl

/-- **The reader allows as many parameters and arguments** as the grammar. -/
theorem maxArguments_eq : maxArguments = 255 := rfl

end Tables

/-! ## 2. How tightly a token binds

Numbers for what the ladder says level by level.  They are what the reader is measured by: at a
token that binds less tightly than the operators of a level, it is done with an expression of this
level. -/

/-- How tightly a token binds what stands in front of it. -/
def Kind.tightness : Kind → Nat
  | .symbol .leftParen | .symbol .dot => 8
  | .symbol .slash | .symbol .star => 7
  | .symbol .minus | .symbol .plus => 6
  | .symbol .greater | .symbol .greaterEqual | .symbol .less | .symbol .lessEqual => 5
  | .symbol .bangEqual | .symbol .equalEqual => 4
  | .keyword .and => 3
  | .keyword .or => 2
  | .symbol .equal => 1
  | _ => 0

/-- How tightly the next token binds what has been read. -/
def Spot.tightness (a : Spot) : Nat := (a.kind?.map Kind.tightness).getD 0

/-- How tightly the operators of a level bind. -/
def Level.tightness : Level → Nat
  | .or => 2
  | .and => 3
  | .equality => 4
  | .comparison => 5
  | .sum => 6
  | .product => 7

/-- The operators of a level bind as tightly as the level. -/
theorem Level.tightness_operator {level : Level} {kind : Kind} {op : Operator}
    (h : level.operator? kind = some op) : kind.tightness = level.tightness := by
  unfold Level.operator? at h
  split at h <;> first | rfl | cases h

/-- The next tighter level binds more tightly by one. -/
theorem Level.tightness_tighter {level level' : Level} (h : level.tighter? = some level') :
    level'.tightness = level.tightness + 1 := by
  cases level <;> cases h <;> rfl

theorem Level.tightness_tightest {level : Level} (h : level.tighter? = none) :
    level.tightness = 7 := by
  rw [tighter?_eq_none.1 h]
  rfl

theorem Level.tightness_le (level : Level) : 2 ≤ level.tightness ∧ level.tightness ≤ 7 := by
  cases level <;> decide

theorem Spot.tightness_of_kind? {a : Spot} {kind : Kind} (h : a.kind? = some kind) :
    a.tightness = kind.tightness := by
  rw [Spot.tightness, h, Option.map_some, Option.getD_some]

/-- In front of an operator of a level the next token binds as the level does. -/
theorem Grammar.Between.tightness {level : Level} {a b : Spot} {op : Operator} {line : Nat} :
    Between level a op line b → a.tightness = level.tightness
  | .mk stands => level.tightness_operator (stands_iff.1 stands)

end Lox
