import Mathlib
import ScopeScript.Proofs.Syntax.Likeness
import ScopeScript.Proofs.Syntax.Recognition

/-!
# Programs laid out anew

How the tokens of a text are laid out is of no importance to the program that it is: with other gaps
between them the tokens are read as the same program or rejected for the same reason, on the line
where the token that is at fault stands then.
-/

namespace ScopeScript

open TokenStream

theorem TokenStream.alike_before {R : Token → Token → Prop} {ts us : List Token}
    {last last' : Token} (h : List.Forall₂ R ts us) (hlast : R last last') :
    (before last ts).Alike R (before last' us) := by
  cases h with
  | nil => exact ⟨hlast, .nil⟩
  | cons hhead htail => exact ⟨hhead, List.rel_append htail (.cons hlast .nil)⟩

/-- Tokens with the same words are read as the same program, or rejected with the same error but for
its line, which is that of corresponding tokens. -/
theorem Program.ofTokens_alike {R : Token → Token → Prop} (hR : ∀ t t', R t t' → t.SameWord t')
    {ts us : List Token} {last last' : Token} (h : List.Forall₂ R ts us) (hlast : R last last')
    (heof : last.kind = .eof) :
    (∃ p, ofTokens (ts ++ [last]) = .ok p ∧ ofTokens (us ++ [last']) = .ok p) ∨
      ∃ t t' cause, R t t' ∧ cause.Fits t ∧ ofTokens (ts ++ [last]) = .error ⟨t.line, cause⟩ ∧
        ofTokens (us ++ [last']) = .error ⟨t'.line, cause⟩ := by
  have heof' : last'.kind = .eof := (hR _ _ hlast).kind.symm.trans heof
  have hends := Parser.respects_program hR _ _ (alike_before h hlast)
  simp only [ofTokens, ofList_append heof, ofList_append heof', TokenStream.program]
  generalize Parser.program (before last ts) = r, Parser.program (before last' us) = r' at hends
  cases hends with
  | ok hQ _ => exact .inl ⟨_, rfl, congrArg Except.ok hQ.symm⟩
  | error ht hcause _ => exact .inr ⟨_, _, _, ht, hcause, rfl, rfl⟩

namespace Program

variable {source source' : String} {ts us : List Token} {final final' : Nat}

theorem ofSource_of_tokens (h : Token.ofSource source = .ok ts) :
    ofSource source = ofTokens ts := by
  rw [ofSource, h]
  rfl

/-- A text with the words of a phrase is the program that the phrase has as its tree. -/
theorem ofSource_of_spells {words : List Token} {p : Program}
    (h : Spells source.toList words) (hp : Grammar.Derives .program words p) :
    ofSource source = .ok p := by
  obtain ⟨us, final, hus, hwords⟩ := h.ofSource
  have hok : ofTokens (words ++ [.eof final]) = .ok p := ofTokens_of_derives rfl hp
  rw [ofSource_of_tokens hus]
  obtain ⟨q, hq, hq'⟩ | ⟨t, t', cause, -, -, herror, -⟩ :=
    ofTokens_alike (fun _ _ h => h) hwords (Token.SameWord.refl (.eof final)) rfl
  · exact hq'.trans (hq.symm.trans hok)
  · cases herror.symm.trans hok

/-- The text with the tokens of another text and any gaps between them has the same tokens on its
own lines.  It is the same program, or it is rejected with the same cause, and then the reported
lines are those of one token in both texts. -/
theorem ofSource_laidOut (h : Token.ofSource source = .ok (ts ++ [.eof final]))
    (hlaid : LaidOut (ts.map Token.text) source'.toList) :
    ∃ us final', Token.ofSource source' = .ok (us ++ [.eof final']) ∧
      List.Forall₂ Token.SameWord ts us ∧
      (∀ p, ofSource source = .ok p ↔ ofSource source' = .ok p) ∧
      ∀ e, ofSource source = .error e →
        ∃ (i : Nat) (t t' : Token), (ts ++ [.eof final])[i]? = some t ∧
          (us ++ [.eof final'])[i]? = some t' ∧ e.line = t.line ∧
          ofSource source' = .error ⟨t'.line, e.cause⟩ := by
  obtain ⟨us, final', h', hwords⟩ := Token.exists_of_laidOut h hlaid
  refine ⟨us, final', h', hwords, ?_⟩
  -- Tokens correspond when they stand at the same place in both lists.
  let R (t t' : Token) : Prop := t.SameWord t' ∧ ∃ i : Nat, (ts ++ [.eof final])[i]? = some t ∧
    (us ++ [.eof final'])[i]? = some t'
  have hlength := hwords.length_eq
  have hplaces : List.Forall₂ R ts us := by
    refine List.forall₂_iff_get.mpr ⟨hlength, fun i hi hi' => ⟨hwords.get hi hi', i, ?_, ?_⟩⟩
    · simp [List.getElem?_append_left hi]
    · simp [List.getElem?_append_left hi']
  have heof : R (.eof final) (.eof final') := by
    refine ⟨⟨rfl, rfl⟩, ts.length, by simp, by simp [hlength]⟩
  rw [ofSource_of_tokens h, ofSource_of_tokens h']
  rcases ofTokens_alike (fun _ _ h => h.1) hplaces heof rfl with
    ⟨p, hp, hp'⟩ | ⟨t, t', cause, ⟨-, i, ht, ht'⟩, -, he, he'⟩
  · refine ⟨fun q => by rw [hp, hp'], fun e he => ?_⟩
    rw [hp] at he
    cases he
  · refine ⟨fun q => by simp [he, he'], fun e heq => ?_⟩
    rw [he] at heq
    cases heq
    exact ⟨i, t, t', ht, ht', rfl, he'⟩

/-- A declaration without a name, written over three lines with comments around it. -/
theorem ofSource_laidOut_error :
    ofSource "let = 2" = .error ⟨1, .expectedName "="⟩ ∧
      LaidOut ["let", "=", "2"] "// a\nlet\n= 2 // b".toList ∧
      ∃ line, ofSource "// a\nlet\n= 2 // b" = .error ⟨line, .expectedName "="⟩ := by
  have htokens : Token.ofSource "let = 2" =
      .ok ([⟨.letWord, "let", 1⟩, ⟨.equal, "=", 1⟩, ⟨.number, "2", 1⟩] ++ [.eof 1]) := by cbv
  have herror : ofSource "let = 2" = .error ⟨1, .expectedName "="⟩ := by cbv
  have hseparates {c : Char} (hc : Segment.isBlank c = true ∨ c = '\n') (cs : List Char) :
      Separates (c :: cs) := ⟨c, rfl, hc⟩
  have hfirst : Gap ('/' :: '/' :: ([' ', 'a'] ++ ['\n'])) := .comment (by decide) .nil
  have hsecond : Gap ['\n'] := .newline .nil
  have hthird : Gap [' '] := .blank rfl .nil
  have hlast : LastGap ([' '] ++ ['/', '/', ' ', 'b']) :=
    .inr ⟨[' '], [' ', 'b'], .blank rfl .nil, by decide, rfl⟩
  have hlaid : LaidOut ["let", "=", "2"] "// a\nlet\n= 2 // b".toList :=
    .words hfirst <| .word hsecond (hseparates (.inr rfl) _) <|
      .word hthird (hseparates (.inl rfl) _) <| .last hlast (.inr (hseparates (.inl rfl) _))
  refine ⟨herror, hlaid, ?_⟩
  obtain ⟨_, _, _, _, -, herrors⟩ := ofSource_laidOut htokens hlaid
  obtain ⟨_, _, t', -, -, -, herror'⟩ := herrors _ herror
  exact ⟨t'.line, herror'⟩

end Program

end ScopeScript
