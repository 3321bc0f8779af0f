import ScopeScript.Syntax.Error

/-!
# Token streams

A token stream is a non-empty list of tokens with a place in it: the token that is read next and
the ones behind it.  The last token is never passed.  A parser takes a stream and ends, with a
result or with an error, in a stream further on.
-/

namespace ScopeScript

/-- The tokens that are still to be read: the next one and the rest. -/
structure TokenStream where
  next : Token
  rest : List Token
deriving DecidableEq, Repr

/-- The stream of the given tokens.  If the last one is no `eof`, one with its line is added; the
stream of no tokens has an `eof` on line one. -/
def TokenStream.ofList : List Token → TokenStream
  | [] => ⟨.eof 1, []⟩
  | t :: ts =>
    let last := ts.getLast?.getD t
    if last.kind = .eof then ⟨t, ts⟩ else ⟨t, ts ++ [.eof last.line]⟩

/-- The stream behind the next token; the last token is not passed. -/
def TokenStream.drop (s : TokenStream) : TokenStream :=
  match s.rest with
  | [] => s
  | t :: ts => ⟨t, ts⟩

/-- Reads tokens of a stream; the place in the stream is kept when an error is found. -/
abbrev Parser := EStateM SyntaxError TokenStream

namespace Parser

/-- The next token. -/
def peek : Parser Token := return (← get).next

/-- The kind of the next token. -/
def peekKind : Parser Token.Kind := return (← get).next.kind

/-- Reads the next token, whatever it is. -/
def advance : Parser Token := do
  let s ← get
  set s.drop
  return s.next

/-- Reads the next token if it is of the given kind, and answers whether it is. -/
def accept (kind : Token.Kind) : Parser Bool := do
  if (← peekKind) = kind then
    let _ ← advance
    return true
  else return false

/-- Fails with the given cause on the line of the next token. -/
def failAtNext (cause : String → SyntaxError.Cause) : Parser α := do
  let t ← peek
  throw ⟨t.line, cause t.shown⟩

/-- Reads a token of the given kind. -/
def expect (kind : Token.Kind) : Parser Unit := do
  if (← peekKind) = kind then
    let _ ← advance
    return ()
  else failAtNext fun found => .unexpectedToken found kind

/-- Reads a name, or fails with the given cause. -/
def nameOr (cause : String → SyntaxError.Cause) : Parser String := do
  if (← peekKind) = .name then return (← advance).text else failAtNext cause

end Parser

end ScopeScript
