import Mathlib.Data.List.Forall2
import ScopeScript.Proofs.Token.Joining

/-!
# Layouts

Between the tokens of a text stand gaps: blanks, newlines and comments.  `Spells cs words` says that
the text `cs` has the tokens `words`, whatever the gaps are and on whatever lines the tokens stand.
When the tokens of a text are laid out in another way (`LaidOut`), the same words are spelled.
-/

namespace ScopeScript

open Segment Lexer

namespace Token

/-- The tokens are the same but for their lines. -/
structure SameWord (t u : Token) : Prop where
  kind : t.kind = u.kind
  text : t.text = u.text

theorem SameWord.refl (t : Token) : t.SameWord t := ⟨rfl, rfl⟩

/-- The token is what its text is cut into. -/
def IsWord (t : Token) : Prop := (token t.kind t.text.toList).WellCut []

end Token

namespace Segment

/-! ## Words in front of a text -/

theorem Stops.nil (p : Char → Prop) : Stops p [] := by
  simp [Stops]

/-- A segment in front of a text may also stand at the end. -/
theorem WellCut.nil {seg : Segment} {rest : List Char} (h : seg.WellCut rest) : seg.WellCut [] := by
  cases seg with
  | blank | newline | stray => exact h
  | comment text => exact ⟨h.1, .nil _⟩
  | token kind text =>
    obtain ⟨c, htext, hkind, -⟩ | ⟨hkind, hne, hdigits, -⟩ |
      ⟨c, cs, htext, halpha, hparts, -, hword⟩ := h
    · exact .inl ⟨c, htext, hkind, fun _ => .nil _⟩
    · exact .inr (.inl ⟨hkind, hne, hdigits, .nil _⟩)
    · exact .inr (.inr ⟨c, cs, htext, halpha, hparts, .nil _, hword⟩)

/-- The first character, if there is one, goes on with no token in front of it, and starts no
comment with it. -/
def EndsWord (cs : List Char) : Prop :=
  Stops (fun c => c = '/' ∨ c.isDigit = true ∨ Text.isNamePart c = true) cs

theorem EndsWord.cons {c : Char} (hc : ¬(c = '/' ∨ c.isDigit = true ∨ Text.isNamePart c = true))
    (cs : List Char) : EndsWord (c :: cs) := by
  intro d hd
  obtain rfl : c = d := Option.some.inj hd
  exact hc

theorem WellCut.of_endsWord {kind : Token.Kind} {text cs : List Char}
    (h : (token kind text).WellCut []) (hcs : EndsWord cs) : (token kind text).WellCut cs := by
  obtain ⟨c, htext, hkind, -⟩ | ⟨hkind, hne, hdigits, -⟩ |
    ⟨c, ds, htext, halpha, hparts, -, hword⟩ := h
  · exact .inl ⟨c, htext, hkind, fun _ d hd hslash => hcs d hd (.inl hslash)⟩
  · exact .inr (.inl ⟨hkind, hne, hdigits, fun d hd hdigit => hcs d hd (.inr (.inl hdigit))⟩)
  · refine .inr (.inr ⟨c, ds, htext, halpha, hparts, ?_, hword⟩)
    exact fun d hd hpart => hcs d hd (.inr (.inr hpart))

end Segment

/-! ## Words that a text spells -/

/-- The text has the given tokens, on some lines. -/
def Spells (cs : List Char) (words : List Token) : Prop :=
  ∃ segs, IsCut cs segs ∧ ∀ line, ∃ us final,
    tokensFrom line segs = .ok (us ++ [.eof final]) ∧ List.Forall₂ Token.SameWord words us

namespace Spells

variable {cs : List Char} {words : List Token}

theorem nil : Spells [] [] :=
  ⟨[], isCut_nil, fun line => ⟨[], line, rfl, .nil⟩⟩

theorem blank {c : Char} (hc : isBlank c = true) (h : Spells cs words) :
    Spells (c :: cs) words := by
  obtain ⟨segs, hcut, htokens⟩ := h
  have hwell : (Segment.blank c).WellCut cs := by
    simpa [isBlank, WellCut, or_assoc] using hc
  exact ⟨.blank c :: segs, hcut.cons hwell, htokens⟩

theorem newline (h : Spells cs words) : Spells ('\n' :: cs) words := by
  obtain ⟨segs, hcut, htokens⟩ := h
  have hwell : Segment.newline.WellCut cs := trivial
  exact ⟨.newline :: segs, hcut.cons hwell, fun line => htokens (line + 1)⟩

theorem comment {body : List Char} (hbody : '\n' ∉ body) (hcs : Stops (· ≠ '\n') cs)
    (h : Spells cs words) : Spells ('/' :: '/' :: (body ++ cs)) words := by
  obtain ⟨segs, hcut, htokens⟩ := h
  have hwell : (Segment.comment ('/' :: '/' :: body)).WellCut cs := ⟨⟨body, rfl, hbody⟩, hcs⟩
  exact ⟨.comment ('/' :: '/' :: body) :: segs, hcut.cons hwell, htokens⟩

/-- A token in front of a text in which it ends there. -/
theorem token {t : Token} (ht : (Segment.token t.kind t.text.toList).WellCut cs)
    (h : Spells cs words) : Spells (t.text.toList ++ cs) (t :: words) := by
  obtain ⟨segs, hcut, htokens⟩ := h
  refine ⟨.token t.kind t.text.toList :: segs, hcut.cons ht, fun line => ?_⟩
  obtain ⟨us, final, hus, hwords⟩ := htokens line
  refine ⟨⟨t.kind, t.text, line⟩ :: us, final, ?_, .cons ⟨rfl, rfl⟩ hwords⟩
  rw [tokensFrom_token _ _ hus, String.ofList_toList, List.cons_append]

/-- A word in front of a text that does not go on with it. -/
theorem word {t : Token} (ht : t.IsWord) (hcs : EndsWord cs) (h : Spells cs words) :
    Spells (t.text.toList ++ cs) (t :: words) :=
  h.token (ht.of_endsWord hcs)

theorem ofSource {source : String} (h : Spells source.toList words) :
    ∃ us final, Token.ofSource source = .ok (us ++ [.eof final]) ∧
      List.Forall₂ Token.SameWord words us := by
  obtain ⟨segs, hcut, htokens⟩ := h
  rw [Token.ofSource, ← hcut.eq_segments]
  exact htokens 1

end Spells

/-! ## Gaps -/

/-- Blanks, newlines, and comments that a newline ends. -/
inductive Gap : List Char → Prop
  | nil : Gap []
  | blank {c : Char} {cs : List Char} (hc : isBlank c = true) (h : Gap cs) : Gap (c :: cs)
  | newline {cs : List Char} (h : Gap cs) : Gap ('\n' :: cs)
  | comment {body cs : List Char} (hbody : '\n' ∉ body) (h : Gap cs) :
      Gap ('/' :: '/' :: (body ++ '\n' :: cs))

/-- A gap that may end with a comment without a newline. -/
def LastGap (cs : List Char) : Prop :=
  Gap cs ∨ ∃ gap body, Gap gap ∧ '\n' ∉ body ∧ cs = gap ++ '/' :: '/' :: body

/-- The text starts with a blank or a newline. -/
def Separates (cs : List Char) : Prop := ∃ c ∈ cs.head?, isBlank c = true ∨ c = '\n'

theorem Separates.append {cs : List Char} (h : Separates cs) (ds : List Char) :
    Separates (cs ++ ds) := by
  obtain ⟨c, hc, hsep⟩ := h
  obtain ⟨tail, rfl⟩ := List.head?_eq_some_iff.1 hc
  exact ⟨c, rfl, hsep⟩

theorem Separates.endsWord {cs : List Char} (h : Separates cs) : EndsWord cs := by
  obtain ⟨c, hc, hsep⟩ := h
  intro d hd
  obtain rfl : c = d := Option.some.inj (hc.symm.trans hd)
  have hseparators : c = ' ' ∨ c = '\t' ∨ c = '\r' ∨ c = '\n' := by
    simpa [isBlank, or_assoc] using hsep
  obtain rfl | rfl | rfl | rfl := hseparators
  all_goals decide

/-- A gap in front of a text changes nothing but the lines of its tokens. -/
theorem Gap.spells {gap cs : List Char} {words : List Token} (hgap : Gap gap)
    (h : Spells cs words) : Spells (gap ++ cs) words := by
  induction hgap with
  | nil => exact h
  | blank hc _ ih => exact ih.blank hc
  | newline _ ih => exact ih.newline
  | comment hbody _ ih =>
    simp only [List.cons_append, List.append_assoc]
    exact ih.newline.comment hbody (by simp [Stops])

theorem LastGap.spells {gap : List Char} (hgap : LastGap gap) : Spells gap [] := by
  obtain hgap | ⟨gap, body, hgap, hbody, rfl⟩ := hgap
  · simpa using hgap.spells .nil
  · refine hgap.spells ?_
    simpa using Spells.nil.comment hbody (.nil _)

/-! ## Laying words out -/

/-- The text is what may follow a word: a gap that separates it from the next word, that word and so
on, up to the gap at the end, which may be empty. -/
inductive Follows : List String → List Char → Prop
  | last {gap : List Char} (hgap : LastGap gap) (hstart : gap = [] ∨ Separates gap) :
      Follows [] gap
  | word {gap cs : List Char} {text : String} {texts : List String} (hgap : Gap gap)
      (hstart : Separates gap) (h : Follows texts cs) :
      Follows (text :: texts) (gap ++ (text.toList ++ cs))

/-- The text consists of the given texts of words, of gaps between them that start with a blank or a
newline, and of a gap on either side. -/
inductive LaidOut : List String → List Char → Prop
  | gap {gap : List Char} (hgap : LastGap gap) : LaidOut [] gap
  | words {gap cs : List Char} {text : String} {texts : List String} (hgap : Gap gap)
      (h : Follows texts cs) : LaidOut (text :: texts) (gap ++ (text.toList ++ cs))

theorem Follows.endsWord {texts : List String} {cs : List Char} (h : Follows texts cs) :
    EndsWord cs := by
  cases h with
  | last _ hstart =>
    obtain rfl | hstart := hstart
    · exact .nil _
    · exact hstart.endsWord
  | word _ hstart => exact (hstart.append _).endsWord

theorem Follows.spells {words : List Token} {cs : List Char} (hwords : ∀ t ∈ words, t.IsWord)
    (h : Follows (words.map Token.text) cs) : Spells cs words := by
  induction words generalizing cs with
  | nil =>
    cases h with
    | last hgap _ => exact hgap.spells
  | cons t words ih =>
    obtain ⟨ht, hwords⟩ := List.forall_mem_cons.1 hwords
    cases h with
    | word hgap _ h => exact hgap.spells ((ih hwords h).word ht h.endsWord)

/-- A text in which words are laid out spells these words. -/
theorem LaidOut.spells {words : List Token} {cs : List Char} (hwords : ∀ t ∈ words, t.IsWord)
    (h : LaidOut (words.map Token.text) cs) : Spells cs words := by
  cases words with
  | nil =>
    cases h with
    | gap hgap => exact hgap.spells
  | cons t words =>
    obtain ⟨ht, hwords⟩ := List.forall_mem_cons.1 hwords
    cases h with
    | words hgap h => exact hgap.spells ((h.spells hwords).word ht h.endsWord)

/-! ## The words of a text -/

theorem Lexer.isWord_of_tokensFrom {segs : List Segment} {cs : List Char} {line final : Nat}
    {ts : List Token} (hcut : IsCut cs segs) (h : tokensFrom line segs = .ok (ts ++ [.eof final])) :
    ∀ t ∈ ts, t.IsWord := by
  induction segs generalizing cs line ts with
  | nil =>
    have hends : [] ++ [.eof line] = ts ++ [.eof final] := Except.ok.inj h
    obtain ⟨rfl, -⟩ := List.append_inj' hends rfl
    simp
  | cons seg segs ih =>
    obtain ⟨rest, -, hseg, hsegs⟩ := hcut.uncons
    cases seg with
    | newline | blank | comment => exact ih hsegs h
    | stray => cases h
    | token kind text =>
      obtain ⟨us, hus, heq⟩ := exists_of_tokensFrom_token h
      cases ts with
      | nil => simp
      | cons t ts =>
        obtain ⟨rfl, rfl⟩ := List.cons.inj heq
        refine List.forall_mem_cons.2 ⟨?_, ih hsegs hus⟩
        rw [Token.IsWord, String.toList_ofList]
        exact hseg.nil

/-- The tokens of a text are words. -/
theorem Token.isWord_of_ofSource {source : String} {ts : List Token} {final : Nat}
    (h : ofSource source = .ok (ts ++ [.eof final])) : ∀ t ∈ ts, t.IsWord :=
  isWord_of_tokensFrom (isCut_segments _) h

/-- A text in which the tokens of another text are laid out anew has the same tokens. -/
theorem Token.exists_of_laidOut {source source' : String} {ts : List Token} {final : Nat}
    (h : ofSource source = .ok (ts ++ [.eof final]))
    (hlaid : LaidOut (ts.map Token.text) source'.toList) :
    ∃ us final', ofSource source' = .ok (us ++ [.eof final']) ∧ List.Forall₂ SameWord ts us :=
  (hlaid.spells (isWord_of_ofSource h)).ofSource

end ScopeScript
