import ScopeScript.Syntax.Basic
import ScopeScript.Syntax.TokenStream
import ScopeScript.Number.Reader
import ScopeScript.Token.Lexer

/-!
# From tokens to programs

The grammar of the language, read from left to right with one token of lookahead.

Each rule is a function of the rules that it nests, and `Parser.expr` and `Parser.statement` tie the
knot.  Both take a bound, which holds for the nesting and for the length of every list alike.  The
number of tokens behind the next one is bound enough: a nested expression or another list element
starts only behind a token of its own.  With bound zero nothing follows the next token, which is
then an `eof`: no expression starts there and every list ends.
-/

namespace ScopeScript

namespace Operator

/-- The operator of a sum that a token stands for. -/
def ofSumKind? : Token.Kind → Option Operator
  | .plus => some add
  | .minus => some sub
  | _ => none

/-- The operator of a product that a token stands for. -/
def ofProductKind? : Token.Kind → Option Operator
  | .star => some mul
  | .slash => some div
  | .percent => some mod
  | _ => none

end Operator

namespace Parser

/-! ## Lists and chains -/

/-- `item (',' item)*` -/
def commaSeparated (item : Parser α) : Nat → Parser (List α)
  | 0 => return [← item]
  | n + 1 => do
    let first ← item
    if ← accept .comma then return first :: (← commaSeparated item n)
    else return [first]

/-- `(item (',' item)*)? close` -/
def commaSeparatedUntil (close : Token.Kind) (item : Parser α) (n : Nat) : Parser (List α) := do
  let items ← if (← peekKind) = close then pure [] else commaSeparated item n
  expect close
  return items

/-- `(operator operand)*` behind `lhs`, from the left. -/
def operations (operator? : Token.Kind → Option Operator) (operand : Parser Expr) :
    Nat → Expr → Parser Expr
  | 0, lhs => return lhs
  | n + 1, lhs => do
    match operator? (← peekKind) with
    | none => return lhs
    | some operator =>
      let _ ← advance
      let rhs ← operand
      operations operator? operand n (.binary operator lhs rhs)

/-- `item*` up to a token of a kind for which `stop` holds, which is not read. -/
def itemsUntil (stop : Token.Kind → Bool) (item : Parser α) : Nat → Parser (List α)
  | 0 => return []
  | n + 1 => do
    if stop (← peekKind) then return []
    else
      let first ← item
      return first :: (← itemsUntil stop item n)

/-! ## Expressions -/

/-- `name | number | '(' expr ')'` -/
def primary (expr : Parser Expr) : Parser Expr := do
  match (← peekKind) with
  | .name => return .name (← advance).text
  | .number =>
    let t ← advance
    match Number.parse? t.text with
    | some x => return .number x
    | none => throw ⟨t.line, .badNumber t.text⟩
  | .leftParen =>
    let _ ← advance
    let e ← expr
    expect .rightParen
    return e
  | _ => failAtNext .expectedPrimary

/-- `'(' (expr (',' expr)*)? ')'` -/
def arguments (expr : Parser Expr) (n : Nat) : Parser (List Expr) := do
  expect .leftParen
  commaSeparatedUntil .rightParen expr n

/-- `primary` behind a point, where it has to be a name. -/
def propertyName (primary : Parser Expr) : Parser Expr := do
  let t ← peek
  match ← primary with
  | .name x => return .name x
  | _ => throw ⟨t.line, .expectedName t.shown⟩

/-- `('.' name | '[' expr ']' | arguments)*` behind `e`. -/
def suffixes (expr : Parser Expr) : Nat → Expr → Parser Expr
  | 0, e => return e
  | n + 1, e => do
    match (← peekKind) with
    | .dot =>
      let _ ← advance
      let property ← propertyName (primary expr)
      suffixes expr n (.dot e property)
    | .leftBracket =>
      let _ ← advance
      let key ← expr
      expect .rightBracket
      suffixes expr n (.index e key)
    | .leftParen =>
      let args ← arguments expr n
      suffixes expr n (.call e args)
    | _ => return e

/-- `primary suffixes` -/
def chain (expr : Parser Expr) (n : Nat) : Parser Expr := do
  suffixes expr n (← primary expr)

/-- `chain (('*' | '/' | '%') chain)*` -/
def product (expr : Parser Expr) (n : Nat) : Parser Expr := do
  operations Operator.ofProductKind? (chain expr n) n (← chain expr n)

/-- `product (('+' | '-') product)*` -/
def sum (expr : Parser Expr) (n : Nat) : Parser Expr := do
  operations Operator.ofSumKind? (product expr n) n (← product expr n)

/-- `name (':' expr)?` -/
def property (expr : Parser Expr) : Parser Property := do
  let key ← nameOr .expectedPropertyName
  if ← accept .colon then return .keyed key (← expr) else return .shorthand key

/-- `'{' (property (',' property)*)? '}' suffixes | sum`: an object literal is no operand. -/
def operand (expr : Parser Expr) (n : Nat) : Parser Expr := do
  if ← accept .leftCurly then
    let properties ← commaSeparatedUntil .rightCurly (property expr) n
    suffixes expr n (.object properties)
  else sum expr n

/-- `operand ('=' expr)?` -/
def assignment (expr : Parser Expr) (n : Nat) : Parser Expr := do
  let target ← operand expr n
  if ← accept .equal then return .assign target (← expr) else return target

/-- An expression, given at least as many tokens of bound as follow the next one. -/
def expr : Nat → Parser Expr
  | 0 => failAtNext .expectedPrimary
  | n + 1 => assignment (expr n) (n + 1)

/-! ## Statements -/

/-- `('let' | 'const') name (';' | '=' expr ';')`, where a constant has to have a value. -/
def declaration (expr : Parser Expr) : Parser Stmt := do
  let constant := (← advance).kind = .constWord
  let name ← nameOr .expectedName
  let t ← peek
  if t.kind = .semicolon then
    let _ ← advance
    if constant then throw ⟨t.line, .missingInitializer name⟩
    else return .declare constant name none
  else
    expect .equal
    let init ← expr
    expect .semicolon
    return .declare constant name (some init)

/-- The names that the arguments of a declaration are, if each is a name. -/
def parameters? : List Expr → Option (List String)
  | [] => some []
  | .name x :: rest => (parameters? rest).map (x :: ·)
  | _ :: _ => none

/-- `'fn' name arguments '{' statement* '}'`, where the arguments have to be names. -/
def definition (expr : Parser Expr) (statement : Parser Stmt) (n : Nat) :
    Parser Stmt := do
  let _ ← advance
  let name ← nameOr .expectedName
  let t ← peek
  let args ← arguments expr n
  match parameters? args with
  | none => throw ⟨t.line, .expectedParameterName⟩
  | some params =>
    expect .leftCurly
    let body ← itemsUntil (fun kind => kind = .rightCurly ∨ kind = .eof) statement n
    expect .rightCurly
    return .define name params body

/-- `expr ';'?` -/
def expressionStatement (expr : Parser Expr) : Parser Stmt := do
  let e ← expr
  let _ ← accept .semicolon
  return .expr e

/-- A statement, given at least as many tokens of bound as follow the next one. -/
def statement : Nat → Parser Stmt
  | 0 => expressionStatement (expr 0)
  | n + 1 => do
    match (← peekKind) with
    | .letWord | .constWord => declaration (expr n)
    | .fnWord => definition (expr n) (statement n) n
    | _ => expressionStatement (expr (n + 1))

/-- `statement*` up to an `eof`. -/
def program : Parser Program := do
  let n := (← get).rest.length
  return ⟨← itemsUntil (· = .eof) (statement n) n⟩

end Parser

/-- The next program in a token stream, or the error in it, and the stream where it ends. -/
def TokenStream.program (s : TokenStream) : Except SyntaxError Program × TokenStream :=
  match Parser.program s with
  | .ok p s => (.ok p, s)
  | .error e s => (.error e, s)

/-- The program that a list of tokens is, or the first error in it. -/
def Program.ofTokens (tokens : List Token) : Except SyntaxError Program :=
  (TokenStream.ofList tokens).program.1

/-- The program that a source text is, or the first error in it. -/
def Program.ofSource (source : String) : Except SyntaxError Program := do
  Program.ofTokens (← Token.ofSource source)

end ScopeScript
