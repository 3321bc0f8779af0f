/-!
# Programs

The syntax trees of the language: expressions, statements and programs.  Parentheses leave no
trace in a tree.
-/

namespace ScopeScript

/-- An arithmetic operator. -/
inductive Operator where
  | add
  | sub
  | mul
  | div
  | mod
deriving DecidableEq, Repr

/-- The sign of an operator in source texts and messages. -/
def Operator.sign : Operator → String
  | add => "+"
  | sub => "-"
  | mul => "*"
  | div => "/"
  | mod => "%"

mutual

/-- An expression. -/
inductive Expr where
  | null
  | number (x : Float)
  | name (x : String)
  /-- An assignment; what may stand on its left is checked when it is evaluated. -/
  | assign (target value : Expr)
  | binary (operator : Operator) (lhs rhs : Expr)
  | call (callee : Expr) (arguments : List Expr)
  /-- `object.property`; the property of a written program is a name. -/
  | dot (object property : Expr)
  /-- `object[key]`. -/
  | index (object key : Expr)
  | object (properties : List Property)

/-- An entry of an object literal. -/
inductive Property where
  /-- A key alone, which stands for the variable of that name. -/
  | shorthand (key : String)
  | keyed (key : String) (value : Expr)

end

/-- The key of an entry. -/
def Property.key : Property → String
  | .shorthand key => key
  | .keyed key _ => key

/-- The expression of an entry that has one. -/
def Property.value? : Property → Option Expr
  | .shorthand _ => none
  | .keyed _ value => some value

/-- A statement: the declaration of a variable or constant, the definition of a function, or an
expression. -/
inductive Stmt where
  | declare (constant : Bool) (name : String) (init? : Option Expr)
  | define (name : String) (params : List String) (body : List Stmt)
  | expr (e : Expr)

/-- A program: statements that are run one after the other. -/
structure Program where
  body : List Stmt

end ScopeScript
