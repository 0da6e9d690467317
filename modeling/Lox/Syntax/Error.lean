/-
# Syntax errors

What can be missing or wrong at a token, and the wording of it.  A mark that is required at some
place is a cause of its own: the place determines both the mark and the phrase that names it.
-/
import Lox.Token.Basic

namespace Lox

/-- What a declaration with parameters declares. -/
inductive FunKind where
  | function | method
  deriving DecidableEq, Repr

/-- The word for a kind of declaration. -/
def FunKind.text : FunKind → String
  | .function => "function" | .method => "method"

/-- What a name that must stand at a place names. -/
inductive NameRole where
  | className | superclassName | declared (kind : FunKind) | parameter | variableName | loopVariable
  | property | superMethod
  deriving DecidableEq, Repr

/-- The phrase that asks for a name. -/
def NameRole.phrase : NameRole → String
  | className => "class name"
  | superclassName => "superclass name"
  | declared kind => kind.text ++ " name"
  | parameter => "parameter name"
  | variableName => "variable name"
  | loopVariable => "loop variable name"
  | property => "property name after '.'"
  | superMethod => "superclass method name"

/-- A place at which a certain mark must stand. -/
inductive Place where
  | beforeClassBody | afterClassBody
  | afterName (kind : FunKind) | afterParameters | beforeBody (kind : FunKind)
  | afterVariable | afterBlock | afterValue | afterStatement | afterReturn
  | afterIf | afterIfCondition | afterWhile | afterCondition
  | afterFor | afterLoopCondition | afterForClauses
  | afterForeach | afterLoopVariable | afterForeachClauses
  | afterArguments | afterGrouping | afterElements | afterSuper
  deriving DecidableEq, Repr

namespace Place

/-- The mark that must stand at a place. -/
def mark : Place → Symbol
  | beforeClassBody | beforeBody _ => .leftBrace
  | afterClassBody | afterBlock => .rightBrace
  | afterName _ | afterIf | afterWhile | afterFor | afterForeach => .leftParen
  | afterParameters | afterIfCondition | afterCondition | afterForClauses | afterForeachClauses
  | afterArguments | afterGrouping => .rightParen
  | afterVariable | afterValue | afterStatement | afterReturn | afterLoopCondition
  | afterLoopVariable => .semicolon
  | afterElements => .rightBracket
  | afterSuper => .dot

/-- The phrase that names a place. -/
def phrase : Place → String
  | beforeClassBody => "before class body"
  | afterClassBody => "after class body"
  | afterName kind => "after " ++ kind.text ++ " name"
  | afterParameters => "after parameters"
  | beforeBody kind => "before " ++ kind.text ++ " body"
  | afterVariable => "after variable declaration"
  | afterBlock => "after block"
  | afterValue => "after value"
  | afterStatement | afterGrouping => "after expression"
  | afterReturn => "after return value"
  | afterIf => "after 'if'"
  | afterIfCondition => "after if condition"
  | afterWhile => "after 'while'"
  | afterCondition => "after condition"
  | afterFor => "after 'for'"
  | afterLoopCondition => "after loop condition"
  | afterForClauses => "after for clauses"
  | afterForeach => "after 'foreach'"
  | afterLoopVariable => "after loop variable"
  | afterForeachClauses => "after foreach clauses"
  | afterArguments => "after arguments"
  | afterElements => "after list elements"
  | afterSuper => "after 'super'"

end Place

/-- What is wrong at a token. -/
inductive SyntaxCause where
  | missingName (role : NameRole)
  | missingMark (place : Place)
  | missingExpression
  | tooManyParameters
  | tooManyArguments
  | invalidTarget
  deriving DecidableEq, Repr

/-- The largest number of parameters of a function, and of arguments of a call. -/
def maxArguments : Nat := 255

/-- The message for a cause. -/
def SyntaxCause.message : SyntaxCause → String
  | missingName role => "Expect " ++ role.phrase ++ "."
  | missingMark place => "Expect '" ++ place.mark.text ++ "' " ++ place.phrase ++ "."
  | missingExpression => "Expect expression."
  | tooManyParameters => "Cannot have more than " ++ toString maxArguments ++ " parameters."
  | tooManyArguments => "Cannot have more than " ++ toString maxArguments ++ " arguments."
  | invalidTarget => "Invalid assignment target."

/-- A syntax error: its line, the text of the token it stands at (none at the end of the program)
and its cause. -/
structure SyntaxError where
  line : Nat
  lexeme : Option String
  cause : SyntaxCause
  deriving DecidableEq, Repr

/-- The report of a syntax error. -/
def SyntaxError.text (error : SyntaxError) : String :=
  let spot := match error.lexeme with
    | some lexeme => " at '" ++ lexeme ++ "'"
    | none => " at end"
  "[line " ++ toString error.line ++ "] Error" ++ spot ++ ": " ++ error.cause.message

end Lox
