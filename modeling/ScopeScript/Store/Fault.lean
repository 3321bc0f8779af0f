import ScopeScript.Value.Basic

/-!
# Faults

What a running program can do wrong, and why an evaluation may end without a value.
-/

namespace ScopeScript

/-- What a running program did wrong. -/
inductive Fault where
  /-- No frame on the way from the current one to the outermost binds the name. -/
  | unknownVariable (name : String)
  /-- The frame binds the name already. -/
  | redefinedVariable (name : String)
  /-- The name is bound to a constant. -/
  | constantAssigned (name : String)
  /-- An operator has an operand that is no number. -/
  | mismatch (operator : Operator) (lhs rhs : Value.Kind)
  /-- A native has an argument that is no number. -/
  | expectedNumber (found : Value.Kind)
  | divisionByZero
  | moduloByZero
  | notCallable (found : Value.Kind)
  /-- A value without properties was asked for one. -/
  | notAnObject (found : Value.Kind)
  /-- The property behind a point is no name, which no source text can bring about. -/
  | propertyNotAName
  /-- A computed key is neither a number nor a truth value. -/
  | invalidKey (found : Value.Kind)
  /-- What stands on the left of an assignment is no name. -/
  | invalidTarget
  | argumentCount (name : String) (expected found : Nat)
  /-- The sink took no more output. -/
  | sinkFull
  /-- The clock shows a moment before 1970. -/
  | clockBeforeEpoch
deriving DecidableEq, Repr

/-- The wording of a fault. -/
def Fault.message : Fault → String
  | .unknownVariable name => "unknown variable: " ++ name
  | .redefinedVariable name => "redefined variable: " ++ name
  | .constantAssigned name => "cannot assign to constant: " ++ name
  | .mismatch operator lhs rhs =>
    "type mismatch: cannot apply '" ++ operator.sign ++ "' to " ++ lhs.label ++ " and " ++ rhs.label
  | .expectedNumber found => "expected number, found " ++ found.label
  | .divisionByZero => "division by zero"
  | .moduloByZero => "modulo by zero"
  | .notCallable found => found.label ++ " is not callable"
  | .notAnObject found => "cannot access property of " ++ found.label
  | .propertyNotAName => "property name after '.' must be an identifier"
  | .invalidKey found => found.label ++ " cannot be used as a property key"
  | .invalidTarget => "invalid assignment target"
  | .argumentCount name expected found =>
    name ++ " expects " ++ expected.repr ++ " argument(s), got " ++ found.repr
  | .sinkFull => "I/O error: sink full"
  | .clockBeforeEpoch => "clock error: second time provided was later than self"

/-- Why an evaluation ended without a value. -/
inductive Halt where
  /-- The program did something wrong. -/
  | fault (f : Fault)
  /-- A frame was asked for that the store does not hold. -/
  | missingFrame (frame : FrameId)
  /-- The allowed depth of nested calls was used up. -/
  | tooDeep
deriving DecidableEq, Repr

/-- The wording of a halt. -/
def Halt.message : Halt → String
  | .fault f => f.message
  | .missingFrame frame => "missing frame: " ++ frame.repr
  | .tooDeep => "call depth exceeded"

end ScopeScript
