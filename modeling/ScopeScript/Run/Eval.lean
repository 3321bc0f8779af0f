import ScopeScript.Run.Action
import ScopeScript.Number.Binary

/-!
# Evaluation

Expressions and statements are evaluated by recursion on their trees, and calls by a function that
is given to that recursion.  `Run.call` ties the knot with a bound on the depth of nested calls,
which nothing else uses up.
-/

namespace ScopeScript

/-- How a value is called with arguments from a frame. -/
abbrev Caller := Value → List Value → FrameId → Run Value

/-! ## Single steps -/

/-- The number that an operator gives for two numbers. -/
def Operator.compute : Operator → Float → Float → Except Fault Float
  | .add, x, y => .ok (x + y)
  | .sub, x, y => .ok (x - y)
  | .mul, x, y => .ok (x * y)
  | .div, x, y => if y == 0 then .error .divisionByZero else .ok (x / y)
  | .mod, x, y => if y == 0 then .error .moduloByZero else .ok (Number.remainder x y)

/-- The value that an operator gives for two values. -/
def Operator.apply (operator : Operator) : Value → Value → Except Fault Value
  | .number x, .number y => (operator.compute x y).map .number
  | v, w => .error (.mismatch operator v.kind w.kind)

/-- The entries of a value that is an object. -/
def Value.fields : Value → Except Fault Fields
  | .object fields => .ok fields
  | v => .error (.notAnObject v.kind)

/-- The property that a computed key names: the text of a number or of a truth value. -/
def Value.propertyKey : Value → Except Fault String
  | .number x => .ok (Value.number x).display
  | .bool b => .ok (Value.bool b).display
  | v => .error (.invalidKey v.kind)

/-- The value of a property; one that an object does not have is null. -/
def Fields.property (fields : Fields) (key : String) : Value := (fields.get? key).getD .null

/-! ## Expressions -/

mutual

/-- Evaluates an expression in a frame. -/
def Expr.eval (call : Caller) (frame : FrameId) : Expr → Run Value
  | .null => return .null
  | .number x => return .number x
  | .name x => Run.lookup frame x
  | .assign (.name x) value => do
    let v ← value.eval call frame
    Run.assign frame x v
  | .assign _ _ => Run.fail .invalidTarget
  | .binary operator lhs rhs => do
    let v ← lhs.eval call frame
    let w ← rhs.eval call frame
    Run.ofExcept (operator.apply v w)
  | .call callee arguments => do
    let f ← callee.eval call frame
    let args ← evalAll call frame arguments
    call f args frame
  | .dot object property => do
    let fields ← Run.ofExcept (← object.eval call frame).fields
    match property with
    | .name x => return fields.property x
    | _ => Run.fail .propertyNotAName
  | .index object key => do
    let fields ← Run.ofExcept (← object.eval call frame).fields
    let k ← Run.ofExcept (← key.eval call frame).propertyKey
    return fields.property k
  | .object properties => do
    return .object (← evalProperties call frame [] properties)

/-- Evaluates expressions from left to right. -/
def evalAll (call : Caller) (frame : FrameId) : List Expr → Run (List Value)
  | [] => return []
  | e :: rest => do
    let v ← e.eval call frame
    return v :: (← evalAll call frame rest)

/-- Evaluates the entries of an object literal from left to right and adds them to `fields`. -/
def evalProperties (call : Caller) (frame : FrameId) (fields : Fields) :
    List Property → Run Fields
  | [] => return fields
  | .shorthand key :: rest => do
    let v ← Run.lookup frame key
    evalProperties call frame (fields.insert key v) rest
  | .keyed key value :: rest => do
    let v ← value.eval call frame
    evalProperties call frame (fields.insert key v) rest

end

/-! ## Statements -/

/-- Runs a statement in a frame.  The value of a declaration is the value declared. -/
def Stmt.run (call : Caller) (frame : FrameId) : Stmt → Run Value
  | .declare constant name init? => do
    let v ← match init? with
      | some init => init.eval call frame
      | none => pure .null
    Run.emit (.declaringVariable name constant)
    Run.declare frame name v constant
  | .define name params body => do
    let identity ← Run.newClosure
    Run.emit (.declaringFunction name params.length)
    Run.declare frame name (.function ⟨identity, name, params, body, frame⟩) true
  | .expr e => e.eval call frame

/-- Runs statements in a frame.  The value is that of the last one, or `last` if there is none. -/
def Stmt.runAll (call : Caller) (frame : FrameId) (last : Value) : List Stmt → Run Value
  | [] => return last
  | s :: rest => do
    let v ← s.run call frame
    runAll call frame v rest

/-! ## Calls -/

namespace Run

/-- Declares the parameters of a call in its frame, from left to right. -/
def bind (frame : FrameId) : List (String × Value) → Run Unit
  | [] => return ()
  | (name, v) :: rest => do
    let _ ← declare frame name v false
    bind frame rest

/-- Runs the body of a function in a new frame below the one that it was defined in. -/
def enter (call : Caller) (c : Closure) (args : List Value) : Run Value := do
  if args.length = c.params.length then
    emit (.callingFunction c.name args.length)
    let scope ← newFrame (some c.frame)
    bind scope (c.params.zip args)
    Stmt.runAll call scope .null c.body
  else fail (.argumentCount c.name c.params.length args.length)

/-- Calls a value from a frame, and calls from the body of a function by `call`. -/
def apply (host : Host) (call : Caller) : Caller
  | .native n, args, frame => do
    emit (.callingNative n.name args.length)
    (host.action n args).perform frame
  | .function c, args, _ => enter call c args
  | v, _, _ => fail (.notCallable v.kind)

/-- Calls a value from a frame, with calls nested up to the given depth. -/
def call (host : Host) : Nat → Value → List Value → FrameId → Run Value
  | 0, _, _, _ => throw .tooDeep
  | depth + 1, f, args, frame => apply host (call host depth) f args frame

end Run

/-- Runs a program in a frame, with calls nested up to the given depth. -/
def Program.run (host : Host) (depth : Nat) (frame : FrameId) (p : Program) : Run Value :=
  Stmt.runAll (Run.call host depth) frame .null p.body

end ScopeScript
