import ScopeScript.Value.Basic
import ScopeScript.Number.Layout
import ScopeScript.Text.Quoted
import ScopeScript.Json

/-!
# Written forms of values

`Value.display` is what programs print, `Value.inspect` tells the kinds of values apart, and
`Value.toJson` is the tree that stands for a value in JSON.
-/

namespace ScopeScript

mutual

/-- The text that programs print for a value. -/
def Value.display : Value → String
  | .null => "null"
  | .number x => Number.Layout.plain.render x
  | .bool b => if b then "true" else "false"
  | .object [] => "\x7b\x7d"
  | .object (f :: fs) => "\x7b " ++ ", ".intercalate (displayFields (f :: fs)) ++ " \x7d"
  | .function c => "fn " ++ c.name ++ "(" ++ ", ".intercalate c.params ++ ")"
  | .native n => "native fn " ++ n.name

/-- The texts of the entries of an object. -/
def displayFields : Fields → List String
  | [] => []
  | (key, v) :: rest => (key ++ ": " ++ v.display) :: displayFields rest

end

/-- A list of quoted texts between brackets. -/
def inspectStrings (texts : List String) : String :=
  "[" ++ ", ".intercalate (texts.map Text.Quoted.quote) ++ "]"

mutual

/-- The text of a value that shows its kind and quotes its names. -/
def Value.inspect : Value → String
  | .null => "Null"
  | .number x => "Number(" ++ Number.Layout.inspecting.render x ++ ")"
  | .bool b => if b then "Bool(true)" else "Bool(false)"
  | .object fields => "Object(\x7b" ++ ", ".intercalate (inspectFields fields) ++ "\x7d)"
  | .function c =>
    "Function(Function \x7b name: " ++ Text.Quoted.quote c.name ++ ", params: " ++
      inspectStrings c.params ++ " \x7d)"
  | .native n => "Native(NativeFunction \x7b name: " ++ Text.Quoted.quote n.name ++ " \x7d)"

/-- The texts of the entries of an object, with quoted keys. -/
def inspectFields : Fields → List String
  | [] => []
  | (key, v) :: rest => (Text.Quoted.quote key ++ ": " ++ v.inspect) :: inspectFields rest

end

mutual

/-- The JSON tree of a value; numbers that JSON has no text for are `null`. -/
def Value.toJson : Value → Json
  | .null => .null
  | .number x => if Number.isFinite x then .number x else .null
  | .bool b => .bool b
  | .object fields => .object (fieldsToJson fields)
  | .function c => .object [("fn", .string c.name), ("params", .ofStrings c.params)]
  | .native n => .string ("[native fn " ++ n.name ++ "]")

/-- The members that stand for the entries of an object. -/
def fieldsToJson : Fields → List (String × Json)
  | [] => []
  | (key, v) :: rest => (key, v.toJson) :: fieldsToJson rest

end

end ScopeScript
