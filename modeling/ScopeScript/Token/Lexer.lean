import ScopeScript.Syntax.Error
import ScopeScript.Text.Name

/-!
# Reading tokens

A source text is cut into segments: blanks, newlines, comments, tokens and stray characters.  The
segments joined give the text again (`join_segments`).  A lexer walks over the segments, counts
the newlines and answers with the tokens, and with an error for each stray character.
-/

namespace ScopeScript

/-- A piece of a source text. -/
inductive Segment where
  | blank (c : Char)
  | newline
  /-- From `//` to the end of the line, without the newline. -/
  | comment (text : List Char)
  | token (kind : Token.Kind) (text : List Char)
  /-- A character that is none of the others. -/
  | stray (c : Char)
deriving DecidableEq, Repr

namespace Segment

/-- The characters of the segment. -/
def text : Segment → List Char
  | blank c => [c]
  | newline => ['\n']
  | comment text => text
  | token _ text => text
  | stray c => [c]

/-- Whether `c` only separates tokens, and starts no new line. -/
def isBlank (c : Char) : Bool := c == ' ' || c == '\t' || c == '\r'

/-- The first segment of the text `c :: cs`. -/
def first (c : Char) (cs : List Char) : Segment :=
  if c = '\n' then newline
  else if isBlank c then blank c
  else if c = '/' ∧ cs.head? = some '/' then comment (c :: cs.takeWhile (· ≠ '\n'))
  else
    match Token.Kind.ofChar? c with
    | some kind => token kind [c]
    | none =>
      if c.isDigit then token .number (c :: cs.takeWhile Char.isDigit)
      else if Text.isNameStart c then
        let word := c :: cs.takeWhile Text.isNamePart
        token (Token.Kind.ofWord (String.ofList word)) word
      else stray c

private theorem isPrefix_takeWhile (p : Char → Bool) (c : Char) (cs : List Char) :
    c :: cs.takeWhile p <+: c :: cs :=
  List.cons_prefix_cons.2 ⟨rfl, List.takeWhile_prefix p⟩

/-- The first segment is a part of the text at its start. -/
theorem first_isPrefix (c : Char) (cs : List Char) : (first c cs).text <+: c :: cs := by
  unfold first
  repeat' split
  all_goals first
    | exact isPrefix_takeWhile _ c cs
    | simp_all [text]

theorem text_first_ne_nil (c : Char) (cs : List Char) : (first c cs).text ≠ [] := by
  unfold first
  repeat' split
  all_goals simp [text]

/-- The segments that a text consists of, from left to right. -/
def segments : List Char → List Segment
  | [] => []
  | c :: cs => first c cs :: segments ((c :: cs).drop (first c cs).text.length)
termination_by cs => cs.length
decreasing_by
  have := List.length_pos_iff.2 (text_first_ne_nil c cs)
  simp only [List.length_drop, List.length_cons]
  omega

/-- Nothing of a text is lost, and nothing is added. -/
theorem join_segments (cs : List Char) : (segments cs).flatMap text = cs := by
  fun_induction segments cs with
  | case1 => rfl
  | case2 c cs ih =>
    rw [List.flatMap_cons, ih]
    obtain ⟨t, ht⟩ := first_isPrefix c cs
    rw [← ht, List.drop_left]

end Segment

/-- A place in a source text: the segments that follow, and the line of the first of them. -/
structure Lexer where
  ahead : List Segment
  line : Nat
deriving DecidableEq, Repr

namespace Lexer

/-- The place at the start of a source text. -/
def ofString (source : String) : Lexer := ⟨Segment.segments source.toList, 1⟩

/-- The next token or stray character at a place whose line is `line`, and the place behind it.  At
the end of the text this is `eof`, again and again. -/
def nextFrom (line : Nat) : List Segment → Except SyntaxError Token × Lexer
  | [] => (.ok (.eof line), ⟨[], line⟩)
  | .newline :: rest => nextFrom (line + 1) rest
  | .blank _ :: rest => nextFrom line rest
  | .comment _ :: rest => nextFrom line rest
  | .token kind text :: rest => (.ok ⟨kind, String.ofList text, line⟩, ⟨rest, line⟩)
  | .stray c :: rest => (.error ⟨line, .unexpectedChar c⟩, ⟨rest, line⟩)

/-- The next token or stray character, and the place behind it. -/
def next (l : Lexer) : Except SyntaxError Token × Lexer := nextFrom l.line l.ahead

/-- The tokens of the given segments up to `eof`, or the error for the first stray character. -/
def tokensFrom (line : Nat) : List Segment → Except SyntaxError (List Token)
  | [] => .ok [.eof line]
  | .newline :: rest => tokensFrom (line + 1) rest
  | .blank _ :: rest => tokensFrom line rest
  | .comment _ :: rest => tokensFrom line rest
  | .token kind text :: rest => do
    return ⟨kind, String.ofList text, line⟩ :: (← tokensFrom line rest)
  | .stray c :: _ => .error ⟨line, .unexpectedChar c⟩

end Lexer

/-- The tokens of a source text up to `eof`, or the error for its first stray character. -/
def Token.ofSource (source : String) : Except SyntaxError (List Token) :=
  Lexer.tokensFrom 1 (Segment.segments source.toList)

end ScopeScript
