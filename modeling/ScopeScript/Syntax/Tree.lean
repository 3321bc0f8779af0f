import ScopeScript.Syntax.Basic
import ScopeScript.Json
import ScopeScript.Number.Binary

/-!
# Programs as JSON trees

The tree that a dump of a program shows.
-/

namespace ScopeScript

/-- The name of an operator in dumps of programs. -/
def Operator.tag : Operator → String
  | add => "Add"
  | sub => "Sub"
  | mul => "Mul"
  | div => "Div"
  | mod => "Mod"

/-- The object with one member. -/
def Json.tagged (tag : String) (content : Json) : Json := .object [(tag, content)]

mutual

/-- The tree of an expression. -/
def Expr.toJson : Expr → Json
  | .null => .string "Null"
  | .number x => .tagged "Number" (if Number.isFinite x then .number x else .null)
  | .name x => .tagged "Identifier" (.string x)
  | .assign target value =>
    .tagged "Assign" (.object [("target", target.toJson), ("value", value.toJson)])
  | .binary operator lhs rhs =>
    .tagged "Binary"
      (.object [("lhs", lhs.toJson), ("op", .string operator.tag), ("rhs", rhs.toJson)])
  | .call callee arguments =>
    .tagged "Call"
      (.object [("callee", callee.toJson), ("args", .array (exprsToJson arguments))])
  | .dot object property =>
    .tagged "Member"
      (.object [("object", object.toJson), ("property", property.toJson),
        ("computed", .bool false)])
  | .index object key =>
    .tagged "Member"
      (.object [("object", object.toJson), ("property", key.toJson), ("computed", .bool true)])
  | .object properties => .tagged "Object" (.array (propertiesToJson properties))

/-- The trees of the arguments of a call. -/
def exprsToJson : List Expr → List Json
  | [] => []
  | e :: rest => e.toJson :: exprsToJson rest

/-- The trees of the entries of an object literal. -/
def propertiesToJson : List Property → List Json
  | [] => []
  | .shorthand key :: rest =>
    .object [("key", .string key), ("value", .null)] :: propertiesToJson rest
  | .keyed key value :: rest =>
    .object [("key", .string key), ("value", value.toJson)] :: propertiesToJson rest

end

mutual

/-- The tree of a statement. -/
def Stmt.toJson : Stmt → Json
  | .declare constant name init? =>
    let init := match init? with
      | none => Json.null
      | some e => e.toJson
    .tagged "VarDecl"
      (.object [("name", .string name), ("init", init), ("is_const", .bool constant)])
  | .define name params body =>
    .tagged "FunDecl"
      (.object [("name", .string name), ("params", .ofStrings params),
        ("body", .array (stmtsToJson body))])
  | .expr e => .tagged "Expr" e.toJson

/-- The trees of the statements of a body. -/
def stmtsToJson : List Stmt → List Json
  | [] => []
  | s :: rest => s.toJson :: stmtsToJson rest

end

/-- The tree of a program. -/
def Program.toJson (p : Program) : Json := .object [("body", .array (stmtsToJson p.body))]

end ScopeScript
