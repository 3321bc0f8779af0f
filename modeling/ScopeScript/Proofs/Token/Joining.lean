import ScopeScript.Proofs.Number.DigitRun
import ScopeScript.Proofs.Token.Answers

/-!
# The tokens of joined texts

A newline ends every token and every comment.  So the tokens of two texts with a newline between
them are those of the first text and, on later lines, those of the second.
-/

namespace ScopeScript

namespace Segment

/-! ## Segments -/

theorem Stops.append_newline {p : Char → Prop} {rest : List Char} (h : Stops p rest) (hp : ¬p '\n')
    (ds : List Char) : Stops p (rest ++ '\n' :: ds) := by
  cases rest with
  | nil => simpa [Stops] using hp
  | cons c rest => exact h

/-- A segment in front of a text may also stand in front of the text with a line behind it. -/
theorem WellCut.append_newline {seg : Segment} {rest : List Char} (h : seg.WellCut rest)
    (ds : List Char) : seg.WellCut (rest ++ '\n' :: ds) := by
  cases seg with
  | blank | newline | stray => exact h
  | comment text => exact ⟨h.1, h.2.append_newline (by simp) ds⟩
  | token kind text =>
    obtain ⟨c, htext, hkind, hslash⟩ | ⟨hkind, hne, hdigits, hrest⟩ |
      ⟨c, cs, htext, halpha, hparts, hrest, hword⟩ := h
    · exact .inl ⟨c, htext, hkind, fun hc => (hslash hc).append_newline (by decide) ds⟩
    · exact .inr (.inl ⟨hkind, hne, hdigits, hrest.append_newline (by decide) ds⟩)
    · exact .inr (.inr ⟨c, cs, htext, halpha, hparts, hrest.append_newline (by decide) ds, hword⟩)

theorem WellCut.isDigitRun {kind : Token.Kind} {word rest : List Char}
    (h : (token kind word).WellCut rest) (hkind : kind = .number) :
    Number.IsDigitRun (String.ofList word) := by
  subst hkind
  obtain ⟨c, -, hc, -⟩ | ⟨-, hne, hdigits, -⟩ | ⟨-, -, -, -, -, -, hword⟩ := h
  · unfold Token.Kind.ofChar? at hc
    split at hc
    all_goals cases hc
  · rw [Number.IsDigitRun, String.toList_ofList]
    exact ⟨hne, hdigits⟩
  · simp [Token.Kind.IsSpelled] at hword

theorem IsCut.append_newline {cs ds : List Char} {segs segs' : List Segment} (h : IsCut cs segs)
    (h' : IsCut ds segs') : IsCut (cs ++ '\n' :: ds) (segs ++ newline :: segs') := by
  induction segs generalizing cs with
  | nil =>
    rw [← h.join]
    have hnewline : newline.WellCut ds := trivial
    exact h'.cons hnewline
  | cons seg segs ih =>
    obtain ⟨rest, rfl, hseg, hsegs⟩ := h.uncons
    rw [List.append_assoc]
    exact (ih hsegs).cons (hseg.append_newline ds)

theorem segments_append_newline (cs ds : List Char) :
    segments (cs ++ '\n' :: ds) = segments cs ++ newline :: segments ds :=
  ((isCut_segments cs).append_newline (isCut_segments ds)).eq_segments.symm

end Segment

open Segment

/-! ## Tokens -/

/-- The token the given number of lines further on. -/
def Token.shift (lines : Nat) (t : Token) : Token := { t with line := t.line + lines }

namespace Lexer

variable {segs : List Segment} {line : Nat} {ts : List Token}

theorem tokensFrom_token (kind : Token.Kind) (text : List Char)
    (h : tokensFrom line segs = .ok ts) :
    tokensFrom line (token kind text :: segs) = .ok (⟨kind, String.ofList text, line⟩ :: ts) := by
  rw [tokensFrom, h]
  rfl

theorem exists_of_tokensFrom_token {kind : Token.Kind} {text : List Char}
    (h : tokensFrom line (token kind text :: segs) = .ok ts) :
    ∃ us, tokensFrom line segs = .ok us ∧ ts = ⟨kind, String.ofList text, line⟩ :: us := by
  rw [tokensFrom] at h
  cases hus : tokensFrom line segs with
  | error e =>
    rw [hus] at h
    cases h
  | ok us =>
    rw [hus] at h
    exact ⟨us, rfl, (Except.ok.inj h).symm⟩

/-- The tokens of segments that start on a later line. -/
theorem tokensFrom_add (lines : Nat) (h : tokensFrom line segs = .ok ts) :
    tokensFrom (line + lines) segs = .ok (ts.map (.shift lines)) := by
  induction segs generalizing line ts with
  | nil =>
    obtain rfl := Except.ok.inj h
    rfl
  | cons seg segs ih =>
    cases seg with
    | newline =>
      rw [tokensFrom] at h ⊢
      rw [Nat.add_right_comm]
      exact ih h
    | blank | comment => exact ih h
    | stray => cases h
    | token kind text =>
      obtain ⟨us, hus, rfl⟩ := exists_of_tokensFrom_token h
      exact tokensFrom_token kind text (ih hus)

/-- The last token is the end of the text; the others are none, and numbers are runs of digits. -/
theorem exists_of_tokensFrom {cs : List Char} (hcut : IsCut cs segs)
    (h : tokensFrom line segs = .ok ts) :
    ∃ body final, ts = body ++ [.eof final] ∧
      ∀ t ∈ body, t.kind ≠ .eof ∧ (t.kind = .number → Number.IsDigitRun t.text) := by
  induction segs generalizing cs line ts with
  | nil => exact ⟨[], line, (Except.ok.inj h).symm, by simp⟩
  | cons seg segs ih =>
    obtain ⟨rest, -, hseg, hsegs⟩ := hcut.uncons
    cases seg with
    | newline | blank | comment => exact ih hsegs h
    | stray => cases h
    | token kind text =>
      obtain ⟨us, hus, rfl⟩ := exists_of_tokensFrom_token h
      obtain ⟨body, final, rfl, hbody⟩ := ih hsegs hus
      refine ⟨⟨kind, String.ofList text, line⟩ :: body, final, rfl, fun t ht => ?_⟩
      obtain rfl | ht := List.mem_cons.1 ht
      · exact ⟨hseg.kind_ne_eof, hseg.isDigitRun⟩
      · exact hbody t ht

/-- The tokens of segments with a line behind them. -/
theorem tokensFrom_append_newline {cs : List Char} {final : Nat} {segs' : List Segment}
    {us : List Token} (hcut : IsCut cs segs)
    (h : tokensFrom line segs = .ok (ts ++ [.eof final]))
    (h' : tokensFrom (final + 1) segs' = .ok us) :
    tokensFrom line (segs ++ newline :: segs') = .ok (ts ++ us) := by
  induction segs generalizing cs line ts with
  | nil =>
    have hends : [] ++ [.eof line] = ts ++ [.eof final] := Except.ok.inj h
    obtain ⟨rfl, hlast⟩ := List.append_inj' hends rfl
    have hline : line = final := congrArg Token.line (List.head_eq_of_cons_eq hlast)
    rw [← hline] at h'
    exact h'
  | cons seg segs ih =>
    obtain ⟨rest, -, hseg, hsegs⟩ := hcut.uncons
    cases seg with
    | newline | blank | comment => exact ih hsegs h
    | stray => cases h
    | token kind text =>
      obtain ⟨us', hus, heq⟩ := exists_of_tokensFrom_token h
      cases ts with
      | nil =>
        -- The end of the text is no token of a segment.
        exact absurd (congrArg Token.kind (List.head_eq_of_cons_eq heq)).symm hseg.kind_ne_eof
      | cons t ts =>
        obtain ⟨rfl, rfl⟩ := List.cons.inj heq
        exact tokensFrom_token kind text (ih hsegs hus)

end Lexer

/-! ## Texts -/

namespace Token

variable {source : String} {ts : List Token}

/-- The tokens of a text end with the end of the text; the others are none, and numbers among them
are runs of digits. -/
theorem exists_of_ofSource (h : ofSource source = .ok ts) :
    ∃ body final, ts = body ++ [.eof final] ∧
      ∀ t ∈ body, t.kind ≠ .eof ∧ (t.kind = .number → Number.IsDigitRun t.text) :=
  Lexer.exists_of_tokensFrom (isCut_segments _) h

/-- The tokens of two texts with a newline between them are those of both, the latter as many lines
further on as the former text has. -/
theorem ofSource_join {a b : String} {ts us : List Token} {final : Nat}
    (ha : ofSource a = .ok (ts ++ [.eof final])) (hb : ofSource b = .ok us) :
    ofSource (a ++ "\n" ++ b) = .ok (ts ++ us.map (.shift final)) := by
  have htext : (a ++ "\n" ++ b).toList = a.toList ++ '\n' :: b.toList := by simp
  have hlater := Lexer.tokensFrom_add final hb
  rw [Nat.add_comm] at hlater
  rw [ofSource, htext, segments_append_newline]
  exact Lexer.tokensFrom_append_newline (isCut_segments _) ha hlater

end Token

end ScopeScript
