import ScopeScript.Proofs.Syntax.Soundness
import ScopeScript.Proofs.Syntax.Completeness

/-!
# The language of the parser

The parser accepts just the phrases of the grammar.  Since it gives one program for a list of
tokens, no list of tokens is a phrase of two programs.
-/

namespace ScopeScript.Program

open Grammar

/-- A list of tokens is read as a program just if the grammar derives it with that program as its
tree, which no other program is; it is rejected just if the grammar does not derive it. -/
theorem ofTokens_eq_ok_iff_derives {ts : List Token} {last : Token} (hlast : last.kind = .eof)
    (hkind : ∀ t ∈ ts, t.kind ≠ .eof)
    (hdigits : ∀ t ∈ ts, t.kind = .number → Number.IsDigitRun t.text) :
    (∀ p, ofTokens (ts ++ [last]) = .ok p ↔ Derives .program ts p) ∧
      (∀ p q : Program, Derives .program ts p → Derives .program ts q → p = q) ∧
      ((∃ e, ofTokens (ts ++ [last]) = .error e) ↔ ∀ p : Program, ¬Derives .program ts p) := by
  have hiff (p : Program) : ofTokens (ts ++ [last]) = .ok p ↔ Derives .program ts p :=
    ⟨derives_of_ofTokens hlast hkind hdigits, ofTokens_of_derives hlast⟩
  refine ⟨hiff, fun p q hp hq => ?_, fun ⟨e, he⟩ p hp => ?_, fun hnone => ?_⟩
  · exact Except.ok.inj (((hiff p).2 hp).symm.trans ((hiff q).2 hq))
  · rw [(hiff p).2 hp] at he
    cases he
  · cases h : ofTokens (ts ++ [last]) with
    | error e => exact ⟨e, rfl⟩
    | ok p => exact absurd ((hiff p).1 h) (hnone p)

/-- The tokens of `f (1)` are one call, and not the name `f` followed by a number in parentheses. -/
theorem derives_call_only :
    let ts : List Token :=
      [⟨.name, "f", 1⟩, ⟨.leftParen, "(", 1⟩, ⟨.number, "1", 1⟩, ⟨.rightParen, ")", 1⟩]
    let p : Program := ⟨[.expr (.call (.name "f") [.number (Number.ofDigitRun "1")])]⟩
    ofTokens (ts ++ [.eof 1]) = .ok p ∧ ∀ q : Program, Derives .program ts q → q = p := by
  intro ts p
  have hdigits : Number.IsDigitRun "1" := ⟨by decide, by simp [Char.isDigit]⟩
  have hone : Derives .expr [⟨.number, "1", 1⟩] (Expr.number (Number.ofDigitRun "1")) :=
    (Derives.number hdigits rfl).expr_of_primary
  have hsuffix := Derives.suffixes (.call (l := ⟨.leftParen, "(", 1⟩) rfl (.list (.one hone))
    (r := ⟨.rightParen, ")", 1⟩) rfl) .noSuffix
  have hchain := Derives.chain (.name (x := ⟨.name, "f", 1⟩) rfl) hsuffix
  have hexpr := Derives.expr (.operand (.sum (.product hchain .productEnd) .sumEnd))
  have hp : Derives .program ts p := .program (.bareStatements hexpr .noStatement (by decide))
  have hmain := @ofTokens_eq_ok_iff_derives ts (.eof 1) rfl (by decide)
    (by simpa [ts] using hdigits)
  exact ⟨(hmain.1 p).2 hp, fun q hq => hmain.2.1 q p hq hp⟩

end ScopeScript.Program
