import ScopeScript.Syntax.Basic

/-!
# Values

What expressions evaluate to.  An object is a list of keys with values, in strictly increasing
order of the keys.  A function value refers to the frame it was defined in by number, and natives
are known by number too; each evaluation of a definition makes a function with an identity of its
own.
-/

namespace ScopeScript

/-- The number of a frame in a store. -/
abbrev FrameId := Nat

/-- A function of the language, with the frame it was defined in. -/
structure Closure where
  identity : Nat
  name : String
  params : List String
  body : List Stmt
  frame : FrameId

/-- A function of the host. -/
structure Native where
  identity : Nat
  name : String
deriving DecidableEq, Repr

/-- A value. -/
inductive Value where
  | null
  | number (x : Float)
  | bool (b : Bool)
  | object (fields : List (String × Value))
  | function (c : Closure)
  | native (n : Native)

/-- What sort of value a value is. -/
inductive Value.Kind where
  | null
  | number
  | boolean
  | object
  | function
  | native
deriving DecidableEq, Repr

namespace Value

/-- How messages call the kind. -/
def Kind.label : Kind → String
  | null => "null"
  | number => "number"
  | boolean => "boolean"
  | object => "object"
  | function => "function"
  | native => "native function"

/-- The kind of a value. -/
def kind : Value → Kind
  | .null => .null
  | .number _ => .number
  | .bool _ => .boolean
  | .object _ => .object
  | .function _ => .function
  | .native _ => .native

/-- Whether a value is `null`. -/
def isNull : Value → Bool
  | .null => true
  | _ => false

end Value

/-- The entries of an object. -/
abbrev Fields := List (String × Value)

namespace Fields

/-- Binds `key` to `v`, in place of what it was bound to. -/
def insert (key : String) (v : Value) : Fields → Fields
  | [] => [(key, v)]
  | (k, w) :: rest =>
    if key < k then (key, v) :: (k, w) :: rest
    else if key = k then (key, v) :: rest
    else (k, w) :: insert key v rest

/-- The value that `key` is bound to. -/
def get? (fields : Fields) (key : String) : Option Value := fields.lookup key

/-- The entries with the given keys and values; of two for one key the later one counts. -/
def ofList (entries : List (String × Value)) : Fields :=
  entries.foldl (fun fields (key, v) => insert key v fields) []

@[simp] theorem get?_nil (key : String) : get? [] key = none := rfl

theorem get?_cons (k : String) (v : Value) (fields : Fields) (key : String) :
    get? ((k, v) :: fields) key = if key = k then some v else fields.get? key := by
  by_cases h : key = k
  · simp [get?, h]
  · simp [get?, List.lookup_cons, h, beq_eq_false_iff_ne.2 h]

theorem get?_insert (key : String) (v : Value) (fields : Fields) (other : String) :
    (fields.insert key v).get? other = if other = key then some v else fields.get? other := by
  fun_induction insert key v fields with
  | case1 => simp [get?_cons]
  | case2 => simp [get?_cons]
  | case3 => by_cases h : other = key <;> simp_all [get?_cons]
  | case4 k w rest _ hk ih =>
    simp only [get?_cons, ih]
    by_cases h : other = k
    · simp [h, Ne.symm hk]
    · simp [h]

end Fields

/-! ## Equality -/

mutual

/-- Whether two values are equal.  Numbers are compared as numbers, so that NaN differs from itself
and the two zeros are equal, and functions by their identities. -/
def Value.equal : Value → Value → Bool
  | .null, .null => true
  | .number x, .number y => x == y
  | .bool a, .bool b => a == b
  | .object fs, .object gs => fieldsEqual fs gs
  | .function c, .function d => c.identity == d.identity
  | .native m, .native n => m.identity == n.identity
  | _, _ => false

/-- Whether two lists of entries have the same keys in the same order, and equal values. -/
def fieldsEqual : Fields → Fields → Bool
  | [], [] => true
  | (k, v) :: fs, (l, w) :: gs => k == l && v.equal w && fieldsEqual fs gs
  | _, _ => false

end

end ScopeScript
