import ScopeScript.Proofs.Token.Cut

/-!
# What a lexer answers

A lexer at the start of a text answers with the tokens and stray characters of its segments one by
one, each with its line, and with `eof` from then on.
-/

namespace ScopeScript

namespace Segment

/-- What a lexer answers when it meets the segment on the given line; blanks, newlines and comments
it passes over. -/
def answer? (line : Nat) : Segment → Option (Except SyntaxError Token)
  | token kind text => some (.ok ⟨kind, String.ofList text, line⟩)
  | stray c => some (.error ⟨line, .unexpectedChar c⟩)
  | _ => none

/-- Whether a lexer answers when it meets the segment. -/
def isAnswered (seg : Segment) : Bool := (seg.answer? 0).isSome

/-- The number of newlines in the text of the segments. -/
def newlines (segs : List Segment) : Nat := (segs.flatMap text).count '\n'

theorem newlines_cons (seg : Segment) (segs : List Segment) :
    newlines (seg :: segs) = seg.text.count '\n' + newlines segs := by
  rw [newlines, List.flatMap_cons, List.count_append, newlines]

/-- Only a newline segment has a newline in it. -/
theorem WellCut.count_text {seg : Segment} {rest : List Char} (h : seg.WellCut rest)
    (hseg : seg ≠ newline) : seg.text.count '\n' = 0 := by
  rw [List.count_eq_zero]
  intro hmem
  cases seg with
  | blank c =>
    obtain rfl := List.mem_singleton.1 hmem
    simp [WellCut] at h
  | newline => exact hseg rfl
  | comment text =>
    obtain ⟨⟨body, rfl, hbody⟩, -⟩ := h
    simp [text, hbody] at hmem
  | token kind text =>
    obtain ⟨c, rfl, hkind, -⟩ | ⟨-, -, hdigits, -⟩ | ⟨c, cs, rfl, halpha, hparts, -⟩ := h
    · obtain rfl := List.mem_singleton.1 hmem
      cases hkind
    · exact absurd (hdigits _ hmem) (by decide)
    · obtain rfl | hcs := List.mem_cons.1 hmem
      · exact absurd halpha (by decide)
      · exact absurd (hparts _ hcs) (by decide)
  | stray c =>
    obtain rfl := List.mem_singleton.1 hmem
    simp [WellCut] at h

theorem ne_newline_of_isAnswered {seg : Segment} (h : seg.isAnswered = true) : seg ≠ newline := by
  rintro rfl
  cases h

/-- No segment has the kind of the token that ends a list of tokens. -/
theorem WellCut.kind_ne_eof {kind : Token.Kind} {word rest : List Char}
    (h : (token kind word).WellCut rest) : kind ≠ .eof := by
  rintro rfl
  obtain ⟨c, -, hkind, -⟩ | ⟨hnumber, -⟩ | ⟨-, -, -, -, -, -, hword⟩ := h
  · unfold Token.Kind.ofChar? at hkind
    split at hkind
    all_goals cases hkind
  · cases hnumber
  · simp [Token.Kind.IsSpelled] at hword

end Segment

open Segment

namespace Lexer

/-- The answer number `k` of a lexer, counted from 0. -/
def answer : Nat → Lexer → Except SyntaxError Token
  | 0, l => l.next.1
  | k + 1, l => answer k l.next.2

theorem answer_congr {l₁ l₂ : Lexer} (h : l₁.next = l₂.next) (k : Nat) :
    answer k l₁ = answer k l₂ := by
  cases k with
  | zero => rw [answer, answer, h]
  | succ k => rw [answer, answer, h]

/-! ## One segment -/

theorem nextFrom_of_not_isAnswered {seg : Segment} {rest : List Char} (hcut : seg.WellCut rest)
    (hseg : seg.isAnswered = false) (line : Nat) (segs : List Segment) :
    nextFrom line (seg :: segs) = nextFrom (line + seg.text.count '\n') segs := by
  cases seg with
  | newline => rfl
  | blank | comment =>
    rw [hcut.count_text (by simp)]
    rfl
  | token | stray => cases hseg

theorem nextFrom_of_answer? {seg : Segment} {line : Nat} {ans : Except SyntaxError Token}
    (h : seg.answer? line = some ans) (segs : List Segment) :
    nextFrom line (seg :: segs) = (ans, ⟨segs, line⟩) := by
  cases seg with
  | token | stray =>
    obtain rfl := Option.some.inj h
    rfl
  | blank | newline | comment => cases h

theorem answer_of_not_isAnswered {seg : Segment} {rest : List Char} (hcut : seg.WellCut rest)
    (hseg : seg.isAnswered = false) (k line : Nat) (segs : List Segment) :
    answer k ⟨seg :: segs, line⟩ = answer k ⟨segs, line + seg.text.count '\n'⟩ := by
  have hnext : next ⟨seg :: segs, line⟩ = next ⟨segs, line + seg.text.count '\n'⟩ :=
    nextFrom_of_not_isAnswered hcut hseg line segs
  exact answer_congr hnext k

theorem answer_of_isAnswered {seg : Segment} (hseg : seg.isAnswered = true) (k line : Nat)
    (segs : List Segment) : answer (k + 1) ⟨seg :: segs, line⟩ = answer k ⟨segs, line⟩ := by
  cases seg with
  | token | stray => rfl
  | blank | newline | comment => cases hseg

/-! ## All segments -/

/-- The answer for a segment is as many answers on as there are answered segments before it. -/
theorem answer_of_split {pre post : List Segment} {seg : Segment} {cs : List Char} {line : Nat}
    {ans : Except SyntaxError Token} (hcut : IsCut cs (pre ++ seg :: post))
    (hseg : seg.answer? (line + newlines pre) = some ans) :
    answer (pre.countP isAnswered) ⟨pre ++ seg :: post, line⟩ = ans := by
  induction pre generalizing cs line with
  | nil => exact congrArg Prod.fst (nextFrom_of_answer? hseg post)
  | cons x pre ih =>
    obtain ⟨ds, -, hx, hpre⟩ := hcut.uncons
    rw [newlines_cons, ← Nat.add_assoc] at hseg
    cases hanswered : x.isAnswered with
    | false =>
      rw [List.countP_cons_of_neg (by simp [hanswered]), List.cons_append,
        answer_of_not_isAnswered hx hanswered]
      exact ih hpre hseg
    | true =>
      rw [hx.count_text (ne_newline_of_isAnswered hanswered)] at hseg
      rw [List.countP_cons_of_pos hanswered, List.cons_append, answer_of_isAnswered hanswered]
      exact ih hpre hseg

/-- Behind the last segment every answer is the end of the text. -/
theorem answer_of_countP_le {segs : List Segment} {cs : List Char} {line k : Nat}
    (hcut : IsCut cs segs) (hk : segs.countP isAnswered ≤ k) :
    answer k ⟨segs, line⟩ = .ok (.eof (line + newlines segs)) := by
  induction segs generalizing cs line k with
  | nil =>
    induction k with
    | zero => rfl
    | succ k ih => exact ih (Nat.zero_le k)
  | cons x segs ih =>
    obtain ⟨ds, -, hx, hsegs⟩ := hcut.uncons
    rw [newlines_cons, ← Nat.add_assoc]
    cases hanswered : x.isAnswered with
    | false =>
      rw [List.countP_cons_of_neg (by simp [hanswered])] at hk
      rw [answer_of_not_isAnswered hx hanswered]
      exact ih hsegs hk
    | true =>
      rw [List.countP_cons_of_pos hanswered] at hk
      obtain ⟨k, rfl⟩ : ∃ n, k = n + 1 := ⟨k - 1, by omega⟩
      rw [answer_of_isAnswered hanswered, hx.count_text (ne_newline_of_isAnswered hanswered)]
      exact ih hsegs (by omega)

/-! ## The tokens of a text -/

theorem tokensFrom_of_not_isAnswered {seg : Segment} {rest : List Char} (hcut : seg.WellCut rest)
    (hseg : seg.isAnswered = false) (line : Nat) (segs : List Segment) :
    tokensFrom line (seg :: segs) = tokensFrom (line + seg.text.count '\n') segs := by
  cases seg with
  | newline => rfl
  | blank | comment =>
    rw [hcut.count_text (by simp)]
    rfl
  | token | stray => cases hseg

/-- Without a stray character the tokens are the answers up to the end of the text. -/
theorem exists_tokensFrom_eq_ok {segs : List Segment} {cs : List Char} (hcut : IsCut cs segs)
    (hstray : ∀ c, stray c ∉ segs) (line : Nat) :
    ∃ ts, tokensFrom line segs = .ok ts ∧ ts.length = segs.countP isAnswered + 1 ∧
      ∀ k (hk : k < ts.length), answer k ⟨segs, line⟩ = .ok (ts.get ⟨k, hk⟩) := by
  induction segs generalizing cs line with
  | nil =>
    refine ⟨[.eof line], rfl, rfl, fun k hk => ?_⟩
    obtain rfl : k = 0 := by simpa using hk
    rfl
  | cons x segs ih =>
    obtain ⟨ds, -, hx, hsegs⟩ := hcut.uncons
    have hrest (line : Nat) := ih hsegs (fun c hc => hstray c (List.mem_cons_of_mem x hc)) line
    cases hanswered : x.isAnswered with
    | false =>
      obtain ⟨ts, hts, hlength, hget⟩ := hrest (line + x.text.count '\n')
      refine ⟨ts, ?_, ?_, fun k hk => ?_⟩
      · rw [tokensFrom_of_not_isAnswered hx hanswered, hts]
      · rw [List.countP_cons_of_neg (by simp [hanswered]), hlength]
      · rw [answer_of_not_isAnswered hx hanswered, hget k hk]
    | true =>
      obtain ⟨ts, hts, hlength, hget⟩ := hrest line
      cases x with
      | blank | newline | comment => cases hanswered
      | stray c => exact absurd List.mem_cons_self (hstray c)
      | token kind text =>
        refine ⟨⟨kind, String.ofList text, line⟩ :: ts, ?_, ?_, fun k hk => ?_⟩
        · rw [tokensFrom, hts]
          rfl
        · rw [List.countP_cons_of_pos hanswered, List.length_cons, hlength]
        · cases k with
          | zero => rfl
          | succ k => exact hget k (Nat.lt_of_succ_lt_succ hk)

/-- The first stray character is the error of a text. -/
theorem tokensFrom_eq_error {pre post : List Segment} {c : Char} {cs : List Char}
    (hcut : IsCut cs (pre ++ stray c :: post)) (hpre : ∀ d, stray d ∉ pre) (line : Nat) :
    tokensFrom line (pre ++ stray c :: post) =
      .error ⟨line + newlines pre, .unexpectedChar c⟩ := by
  induction pre generalizing cs line with
  | nil => rfl
  | cons x pre ih =>
    obtain ⟨ds, -, hx, hsegs⟩ := hcut.uncons
    have hrest (line : Nat) := ih hsegs (fun d hd => hpre d (List.mem_cons_of_mem x hd)) line
    rw [newlines_cons, ← Nat.add_assoc]
    cases hanswered : x.isAnswered with
    | false => rw [List.cons_append, tokensFrom_of_not_isAnswered hx hanswered, hrest]
    | true =>
      rw [hx.count_text (ne_newline_of_isAnswered hanswered), Nat.add_zero]
      cases x with
      | blank | newline | comment => cases hanswered
      | stray d => exact absurd List.mem_cons_self (hpre d)
      | token kind text =>
        rw [List.cons_append, tokensFrom, hrest]
        rfl

/-- Calls of a lexer cut a text from left to right, in the one right way, and answer for each token
and each stray character with its line; then they answer with the end of the text.  The tokens of a
text are these answers up to the end, or the error for the first stray character. -/
theorem exists_isCut_answers (source : String) :
    ∃ segs, (∀ segs', IsCut source.toList segs' ↔ segs' = segs) ∧
      (∀ pre seg post ans, segs = pre ++ seg :: post → seg.answer? (1 + newlines pre) = some ans →
        answer (pre.countP isAnswered) (ofString source) = ans) ∧
      (∀ k, segs.countP isAnswered ≤ k →
        answer k (ofString source) = .ok (.eof (1 + newlines segs))) ∧
      (∀ kind text, token kind text ∈ segs → kind ≠ .eof) ∧
      ((∀ c, stray c ∉ segs) → ∃ ts, Token.ofSource source = .ok ts ∧
        ts.length = segs.countP isAnswered + 1 ∧
        ∀ k (hk : k < ts.length), answer k (ofString source) = .ok (ts.get ⟨k, hk⟩)) ∧
      (∀ pre c post, segs = pre ++ stray c :: post → (∀ d, stray d ∉ pre) →
        Token.ofSource source = .error ⟨1 + newlines pre, .unexpectedChar c⟩) := by
  have hcut := isCut_segments source.toList
  refine ⟨segments source.toList, fun segs' => ⟨IsCut.eq_segments, ?_⟩, ?_, ?_, ?_, ?_, ?_⟩
  · rintro rfl
    exact hcut
  · intro pre seg post ans heq hseg
    rw [ofString, heq]
    exact answer_of_split (heq ▸ hcut) hseg
  · intro k hk
    exact answer_of_countP_le hcut hk
  · intro kind text hmem
    obtain ⟨pre, post, heq⟩ := List.append_of_mem hmem
    exact (hcut.wellCut pre _ post heq).kind_ne_eof
  · intro hstray
    exact exists_tokensFrom_eq_ok hcut hstray 1
  · intro pre c post heq hpre
    rw [Token.ofSource, heq]
    exact tokensFrom_eq_error (heq ▸ hcut) hpre 1

end Lexer

end ScopeScript
