import ScopeScript.Number.Layout

/-!
# JSON

A JSON tree has the two kinds of numbers that the library writes: line numbers, which are natural
numbers, and Binary64 numbers.  An object keeps its members in the order in which they are given.
`Json.compact` writes a tree without any blanks, and `Json.pretty` writes one member or element a
line, two blanks deeper for each level.
-/

namespace ScopeScript

/-- A JSON tree. -/
inductive Json where
  | null
  | bool (b : Bool)
  | number (x : Float)
  | natural (n : Nat)
  | string (s : String)
  | array (elements : List Json)
  | object (members : List (String × Json))

/-- The array of the given texts. -/
def Json.ofStrings (texts : List String) : Json := .array (texts.map .string)

namespace Json

/-- The four hexadecimal digits of a code point below U+10000. -/
def hex4 (n : Nat) : String :=
  let ds := Nat.toDigits 16 n
  String.ofList (List.replicate (4 - ds.length) '0' ++ ds)

/-- The written form of a character inside a string. -/
def escape (c : Char) : String :=
  match c with
  | '"' => "\\\""
  | '\\' => "\\\\"
  | '\x08' => "\\b"
  | '\x0c' => "\\f"
  | '\n' => "\\n"
  | '\r' => "\\r"
  | '\t' => "\\t"
  | c => if c.toNat < 0x20 then "\\u" ++ hex4 c.toNat else c.toString

/-- The text `s` as a JSON string. -/
def quote (s : String) : String :=
  "\"" ++ String.join (s.toList.map escape) ++ "\""

/-- The text of a number; JSON has none for the infinities and NaN, which are written as `null`. -/
def numberText (x : Float) : String :=
  if Number.isFinite x then Number.Layout.json.render x else "null"

/-! ## Without blanks -/

mutual

/-- The text of a tree without blanks. -/
def compact : Json → String
  | .null => "null"
  | .bool b => if b then "true" else "false"
  | .number x => numberText x
  | .natural n => n.repr
  | .string s => quote s
  | .array elements => "[" ++ ",".intercalate (compactElements elements) ++ "]"
  | .object members => "\x7b" ++ ",".intercalate (compactMembers members) ++ "\x7d"

/-- The texts of the elements of an array. -/
def compactElements : List Json → List String
  | [] => []
  | j :: rest => j.compact :: compactElements rest

/-- The texts of the members of an object. -/
def compactMembers : List (String × Json) → List String
  | [] => []
  | (key, j) :: rest => (quote key ++ ":" ++ j.compact) :: compactMembers rest

end

/-! ## One line each -/

/-- The start of a new line at nesting depth `depth`. -/
def newLine (depth : Nat) : String :=
  "\n" ++ String.ofList (List.replicate (2 * depth) ' ')

/-- The `items` between `opening` and `closing`, one a line, or on no line of their own if there
are none. -/
def block (opening closing : String) (depth : Nat) (items : List String) : String :=
  if items.isEmpty then opening ++ closing
  else
    opening ++ newLine (depth + 1) ++ ("," ++ newLine (depth + 1)).intercalate items ++
      newLine depth ++ closing

mutual

/-- The text of a tree at nesting depth `depth`, one element or member a line. -/
def prettyAt (depth : Nat) : Json → String
  | .array elements => block "[" "]" depth (prettyElements (depth + 1) elements)
  | .object members => block "\x7b" "\x7d" depth (prettyMembers (depth + 1) members)
  | .null => "null"
  | .bool b => if b then "true" else "false"
  | .number x => numberText x
  | .natural n => n.repr
  | .string s => quote s

/-- The texts of the elements of an array. -/
def prettyElements (depth : Nat) : List Json → List String
  | [] => []
  | j :: rest => j.prettyAt depth :: prettyElements depth rest

/-- The texts of the members of an object. -/
def prettyMembers (depth : Nat) : List (String × Json) → List String
  | [] => []
  | (key, j) :: rest => (quote key ++ ": " ++ j.prettyAt depth) :: prettyMembers depth rest

end

/-- The text of a tree, one element or member a line. -/
def pretty (j : Json) : String := j.prettyAt 0

end Json

end ScopeScript
