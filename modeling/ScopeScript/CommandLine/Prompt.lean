import ScopeScript.CommandLine.Script

/-!
# The prompt

Without scripts the command reads standard input line by line.  It prints a prompt before each
line and at the end, evaluates each line in one session, and prints the value unless it is null, or
what went wrong.  It stops at a line that is not UTF-8.
-/

namespace ScopeScript.CommandLine.Prompt

/-- The lines of a text, each with its newline; the last one may lack it. -/
def lines : List UInt8 → List (List UInt8)
  | [] => []
  | b :: bs =>
    if b = 10 then [b] :: lines bs
    else
      match lines bs with
      | [] => [[b]]
      | l :: ls => (b :: l) :: ls

/-- Nothing of the input is lost. -/
theorem flatten_lines (bs : List UInt8) : (lines bs).flatten = bs := by
  fun_induction lines bs <;> simp_all

/-- What is printed for the result of a line. -/
def echo : Except Failure Value → String
  | .ok v => if v.isNull then "" else v.display ++ "\n"
  | .error e => e.message ++ "\n"

/-- The session after the prompt was printed. -/
def ask (s : Session) : Session := print s "> "

/-- The session after a line was evaluated and its result printed. -/
def answer (depth : Nat) (line : String) (s : Session) : Session :=
  let (r, s) := s.eval depth line
  print s (echo r)

/-- Answers a line and asks for one more.  At the end of the input, and at a line that is not a
text, it stops. -/
def next (depth : Nat) : Option (List UInt8) → Session → Next × Session
  | none, s => (.stop "" 0, s)
  | some l, s =>
    match String.fromUTF8? (ByteArray.mk l.toArray) with
    | none => (.stop ("Error: " ++ Script.notText ++ "\n") 1, s)
    | some line => (.line, ask (answer depth line s))

end ScopeScript.CommandLine.Prompt
