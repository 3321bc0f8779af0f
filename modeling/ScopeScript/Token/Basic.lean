import ScopeScript.Json

/-!
# Tokens

The words that a source text is made of, each with the text it was read from and the line it
stands on.  A list of tokens ends with one of the kind `eof`.
-/

namespace ScopeScript

namespace Token

/-- What a token is. -/
inductive Kind where
  | eof
  | leftParen
  | rightParen
  | leftCurly
  | rightCurly
  | leftBracket
  | rightBracket
  | equal
  | semicolon
  | colon
  | comma
  | dot
  | plus
  | minus
  | star
  | slash
  | percent
  | letWord
  | constWord
  | fnWord
  | name
  | number
deriving DecidableEq, Repr

namespace Kind

/-- How an error message calls the kind. -/
def label : Kind → String
  | eof => "EOF"
  | leftParen => "("
  | rightParen => ")"
  | leftCurly => "\x7b"
  | rightCurly => "\x7d"
  | leftBracket => "["
  | rightBracket => "]"
  | equal => "="
  | semicolon => ";"
  | colon => ":"
  | comma => ","
  | dot => "."
  | plus => "+"
  | minus => "-"
  | star => "*"
  | slash => "/"
  | percent => "%"
  | letWord => "let"
  | constWord => "const"
  | fnWord => "fn"
  | name => "identifier"
  | number => "number"

/-- The name of the kind in dumps of tokens. -/
def tag : Kind → String
  | eof => "Eof"
  | leftParen => "LeftParen"
  | rightParen => "RightParen"
  | leftCurly => "LeftCurly"
  | rightCurly => "RightCurly"
  | leftBracket => "LeftBracket"
  | rightBracket => "RightBracket"
  | equal => "Equal"
  | semicolon => "Semicolon"
  | colon => "Colon"
  | comma => "Comma"
  | dot => "Dot"
  | plus => "Plus"
  | minus => "Minus"
  | star => "Star"
  | slash => "Slash"
  | percent => "Percent"
  | letWord => "Let"
  | constWord => "Const"
  | fnWord => "Fn"
  | name => "Identifier"
  | number => "Number"

/-- Every kind once. -/
def all : List Kind :=
  [eof, leftParen, rightParen, leftCurly, rightCurly, leftBracket, rightBracket, equal, semicolon,
    colon, comma, dot, plus, minus, star, slash, percent, letWord, constWord, fnWord, name, number]

/-- The kind with the name `tag`, if there is one. -/
def ofTag? (tag : String) : Option Kind := all.find? fun k => k.tag == tag

/-- The kind of the single character `c`, if it is a token on its own. -/
def ofChar? : Char → Option Kind
  | '(' => some leftParen
  | ')' => some rightParen
  | '\x7b' => some leftCurly
  | '\x7d' => some rightCurly
  | '[' => some leftBracket
  | ']' => some rightBracket
  | '=' => some equal
  | ';' => some semicolon
  | ':' => some colon
  | ',' => some comma
  | '.' => some dot
  | '+' => some plus
  | '-' => some minus
  | '*' => some star
  | '/' => some slash
  | '%' => some percent
  | _ => none

/-- The keyword spelled `word`, if it is one. -/
def keyword? (word : String) : Option Kind :=
  if word = "let" then some letWord
  else if word = "const" then some constWord
  else if word = "fn" then some fnWord
  else none

/-- The kind of a token that has the form of a name: a keyword or a name. -/
def ofWord (word : String) : Kind := (keyword? word).getD name

end Kind

end Token

/-- A word of a source text. -/
structure Token where
  kind : Token.Kind
  text : String
  line : Nat
deriving DecidableEq, Repr

namespace Token

/-- The token that ends a list of tokens. -/
def eof (line : Nat) : Token := ⟨.eof, "", line⟩

/-- How an error message quotes the token. -/
def shown (t : Token) : String := if t.kind = .eof then "EOF" else t.text

/-- The token in a dump. -/
def toJson (t : Token) : Json :=
  .object [("kind", .string t.kind.tag), ("text", .string t.text), ("line", .natural t.line)]

end Token

end ScopeScript
