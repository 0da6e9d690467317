/-
# Expressions in prefix form

Prefix form brackets every operation and puts its operator first, so that precedence and grouping
can be read off: `1 + 2 * -3 == 4` is `(== (+ 1 (* 2 (- 3))) 4)`.
-/
import Lox.Syntax.Basic
import Lox.Decimal.Positional

namespace Lox

/-- The text of a literal in prefix form; a string stands between quotes as it is. -/
def Literal.prefixForm : Literal → String
  | .nil => "nil"
  | .boolean value => if value then "true" else "false"
  | .number value => Decimal.numberText value
  | .string value => "\"" ++ value ++ "\""

/-- A bracketed form of a head and the parts that follow it, each behind a space. -/
def bracketed (head : String) (parts : List String) : String :=
  parts.foldl (fun text part => text ++ " " ++ part) ("(" ++ head) ++ ")"

mutual

/-- The prefix form of an expression. -/
def Expr.prefixForm : Expr → String
  | .literal value => value.prefixForm
  | .grouping inner => bracketed "group" [inner.prefixForm]
  | .unary op _ operand => bracketed op.text [operand.prefixForm]
  | .binary op _ left right => bracketed op.text [left.prefixForm, right.prefixForm]
  | .logical op _ left right => bracketed op.text [left.prefixForm, right.prefixForm]
  | .variable v => v.name.text
  | .assign target value => bracketed "assign" [target.name.text, value.prefixForm]
  | .call callee arguments _ => bracketed "call" (callee.prefixForm :: prefixForms arguments)
  | .get object property => bracketed "get" [object.prefixForm, property.text]
  | .set object property value =>
    bracketed "set" [object.prefixForm, property.text, value.prefixForm]
  | .this _ _ => "this"
  | .super _ _ method => bracketed "super" [method.text]
  | .list _ elements => bracketed "list" (prefixForms elements)

/-- The prefix forms of several expressions. -/
def prefixForms : List Expr → List String
  | [] => []
  | e :: es => e.prefixForm :: prefixForms es

end

end Lox
