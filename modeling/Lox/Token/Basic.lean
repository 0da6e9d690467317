/-
# Tokens

A token is a stretch of program text with a kind.  The kinds fall into four families: punctuation
(`Symbol`), reserved words (`Keyword`), names, and literals that carry their value.  The text of a
symbol or keyword is fixed; the tables of both are used for reading and for error messages.
-/
namespace Lox

/-- Punctuation and operators. -/
inductive Symbol where
  | leftParen | rightParen | leftBrace | rightBrace | leftBracket | rightBracket
  | comma | dot | minus | plus | semicolon | slash | star
  | bang | bangEqual | equal | equalEqual | greater | greaterEqual | less | lessEqual
  deriving DecidableEq, Repr

namespace Symbol

/-- The text of a symbol. -/
def text : Symbol → String
  | leftParen => "(" | rightParen => ")"
  | leftBrace => "\x7b" | rightBrace => "\x7d"
  | leftBracket => "[" | rightBracket => "]"
  | comma => "," | dot => "." | minus => "-" | plus => "+" | semicolon => ";"
  | slash => "/" | star => "*"
  | bang => "!" | bangEqual => "!="
  | equal => "=" | equalEqual => "=="
  | greater => ">" | greaterEqual => ">="
  | less => "<" | lessEqual => "<="

/-- The symbol of one character, for the characters that are one. -/
def single? : Char → Option Symbol
  | '(' => some leftParen | ')' => some rightParen
  | '\x7b' => some leftBrace | '\x7d' => some rightBrace
  | '[' => some leftBracket | ']' => some rightBracket
  | ',' => some comma | '.' => some dot | '-' => some minus | '+' => some plus
  | ';' => some semicolon | '/' => some slash | '*' => some star
  | '!' => some bang | '=' => some equal | '>' => some greater | '<' => some less
  | _ => none

/-- The two-character symbol that a symbol becomes when `=` follows it. -/
def withEqual? : Symbol → Option Symbol
  | bang => some bangEqual
  | equal => some equalEqual
  | greater => some greaterEqual
  | less => some lessEqual
  | _ => none

end Symbol

/-- Reserved words. -/
inductive Keyword where
  | and | «class» | «else» | false | foreach | «fun» | «for» | «if» | nil | or | print | «return»
  | super | this | true | var | «while»
  deriving DecidableEq, Repr

namespace Keyword

/-- The text of a keyword. -/
def text : Keyword → String
  | and => "and" | «class» => "class" | «else» => "else" | false => "false"
  | foreach => "foreach" | «fun» => "fun" | «for» => "for" | «if» => "if" | nil => "nil"
  | or => "or" | print => "print" | «return» => "return" | super => "super" | this => "this"
  | true => "true" | var => "var" | «while» => "while"

/-- The keyword with a given text, if the text is one. -/
def ofText? : String → Option Keyword
  | "and" => some and | "class" => some «class» | "else" => some «else» | "false" => some false
  | "foreach" => some foreach | "fun" => some «fun» | "for" => some «for» | "if" => some «if»
  | "nil" => some nil | "or" => some or | "print" => some print | "return" => some «return»
  | "super" => some super | "this" => some this | "true" => some true | "var" => some var
  | "while" => some «while»
  | _ => none

/-- Whether a keyword begins a statement: where reading resumes after a syntax error. -/
def startsStatement : Keyword → Bool
  | «class» | «fun» | var | «for» | foreach | «if» | «while» | print | «return» => Bool.true
  | _ => Bool.false

theorem ofText?_text (word : Keyword) : ofText? word.text = some word := by
  cases word <;> decide

end Keyword

/-- What a token is. -/
inductive Kind where
  | symbol (symbol : Symbol)
  | keyword (keyword : Keyword)
  | identifier
  /-- A string literal, with the text between the quotes. -/
  | string (contents : String)
  | number (value : Float)

/-- A token: its kind, its text in the program, and the line on which it ends. -/
structure Token where
  kind : Kind
  lexeme : String
  line : Nat

namespace Token

/-- Whether a token is a given symbol. -/
def isSymbol (token : Token) (symbol : Symbol) : Bool :=
  match token.kind with
  | .symbol s => s = symbol
  | _ => false

/-- Whether a statement begins with a token. -/
def startsStatement (token : Token) : Bool :=
  match token.kind with
  | .keyword word => word.startsStatement
  | _ => false

end Token

/-- The tokens of a text, and the line on which the text ends. -/
structure TokenStream where
  tokens : List Token
  lastLine : Nat

end Lox
