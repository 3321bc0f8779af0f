import ScopeScript.Token.Basic

/-!
# Syntax errors

Why a source text is not a program, with the line where that was seen.
-/

namespace ScopeScript

/-- What is wrong with a source text.  A text that was found stands in quotes in the message. -/
inductive SyntaxError.Cause where
  /-- A character that starts no token. -/
  | unexpectedChar (c : Char)
  /-- A token where only one of the kind `expected` may stand. -/
  | unexpectedToken (found : String) (expected : Token.Kind)
  /-- No name where a variable or property is named. -/
  | expectedName (found : String)
  /-- A token that starts no expression. -/
  | expectedPrimary (found : String)
  /-- A parameter that is not a name. -/
  | expectedParameterName
  /-- No name where an object literal names a property. -/
  | expectedPropertyName (found : String)
  /-- A constant that is declared without a value. -/
  | missingInitializer (name : String)
  /-- A number token with a text that is not the text of a number. -/
  | badNumber (text : String)
deriving DecidableEq, Repr

/-- Why a source text is not a program, and the line where that was seen. -/
structure SyntaxError where
  line : Nat
  cause : SyntaxError.Cause
deriving DecidableEq, Repr

/-- The wording of a cause. -/
def SyntaxError.Cause.message : Cause → String
  | .unexpectedChar c => "unexpected character: " ++ c.toString
  | .unexpectedToken found expected =>
    "unexpected token '" ++ found ++ "', expected '" ++ expected.label ++ "'"
  | .expectedName found => "expected identifier, found '" ++ found ++ "'"
  | .expectedPrimary found => "expected primary expression, found '" ++ found ++ "'"
  | .expectedParameterName => "function parameters must be plain identifiers"
  | .expectedPropertyName found => "expected property name, found '" ++ found ++ "'"
  | .missingInitializer name => "constant '" ++ name ++ "' must be initialized"
  | .badNumber text => "cannot parse number literal: " ++ text

/-- The wording of an error, with its line. -/
def SyntaxError.message (e : SyntaxError) : String :=
  "parse error: " ++ e.line.repr ++ ": " ++ e.cause.message

end ScopeScript
