import ScopeScript.Proofs.Token.Layout

/-!
# Words

Which tokens texts consist of: the single characters, the keywords, the names and the runs of
digits.  Any such words make up a text that has them as its tokens, which takes no more than a blank
behind each of them (`Spells.exists_of_isWord`).
-/

namespace ScopeScript

open Segment

/-- The text is a name: a character that may start one, characters that may follow, and no
keyword. -/
def Text.IsName (x : String) : Prop :=
  (∃ c cs, x.toList = c :: cs ∧ isNameStart c = true ∧ ∀ d ∈ cs, isNamePart d = true) ∧
    x ≠ "let" ∧ x ≠ "const" ∧ x ≠ "fn"

theorem Text.isName_iff {x : String} :
    IsName x ↔ (x.toList.head?.any isNameStart = true ∧ x.toList.tail.all isNamePart = true) ∧
      x ≠ "let" ∧ x ≠ "const" ∧ x ≠ "fn" := by
  refine and_congr_left fun _ => ?_
  cases x.toList with
  | nil => simp
  | cons c cs => simp

instance (x : String) : Decidable (Text.IsName x) := decidable_of_iff' _ Text.isName_iff

namespace Token

/-- A name is a word. -/
theorem isWord_name {x : String} (hx : Text.IsName x) (line : Nat) : IsWord ⟨.name, x, line⟩ := by
  obtain ⟨⟨c, cs, hcs, hc, hparts⟩, hlet, hconst, hfn⟩ := hx
  refine .inr (.inr ⟨c, cs, hcs, hc, hparts, .nil _, .inr (.inr (.inr ⟨rfl, ?_, ?_, ?_⟩))⟩)
  · exact fun h => hlet (String.toList_inj.1 h)
  · exact fun h => hconst (String.toList_inj.1 h)
  · exact fun h => hfn (String.toList_inj.1 h)

/-- The words that are name tokens are names. -/
theorem IsWord.isName {t : Token} (h : t.IsWord) (ht : t.kind = .name) : Text.IsName t.text := by
  rw [IsWord, ht] at h
  obtain ⟨c, -, hc, -⟩ | ⟨hkind, -⟩ | ⟨c, cs, hcs, hc, hparts, -, hword⟩ := h
  · unfold Kind.ofChar? at hc
    split at hc
    all_goals cases hc
  · cases hkind
  · obtain ⟨hkind, -⟩ | ⟨hkind, -⟩ | ⟨hkind, -⟩ | ⟨-, hlet, hconst, hfn⟩ := hword
    · cases hkind
    · cases hkind
    · cases hkind
    · refine ⟨⟨c, cs, hcs, hc, hparts⟩, ?_, ?_, ?_⟩
      · exact fun h => hlet (congrArg String.toList h)
      · exact fun h => hconst (congrArg String.toList h)
      · exact fun h => hfn (congrArg String.toList h)

/-- A run of digits is a word. -/
theorem isWord_number {text : String} (h : Number.IsDigitRun text) (line : Nat) :
    IsWord ⟨.number, text, line⟩ :=
  .inr (.inl ⟨rfl, h.1, h.2, .nil _⟩)

/-- The token of a kind that has just one spelling, which is its label. -/
def ofKind (kind : Kind) : Token := ⟨kind, kind.label, 0⟩

theorem isWord_ofKind {k : Kind} (h : k ∉ [.eof, .name, .number]) :
    (ofKind k).IsWord := by
  simp only [List.mem_cons, List.not_mem_nil, or_false, not_or] at h
  obtain ⟨heof, hname, hnumber⟩ := h
  cases k with
  | eof => exact absurd rfl heof
  | name => exact absurd rfl hname
  | number => exact absurd rfl hnumber
  | letWord =>
    exact .inr (.inr ⟨'l', ['e', 't'], rfl, by decide, List.all_eq_true.1 (by decide), .nil _,
      .inl ⟨rfl, rfl⟩⟩)
  | constWord =>
    exact .inr (.inr ⟨'c', ['o', 'n', 's', 't'], rfl, by decide, List.all_eq_true.1 (by decide),
      .nil _, .inr (.inl ⟨rfl, rfl⟩)⟩)
  | fnWord =>
    exact .inr (.inr ⟨'f', ['n'], rfl, by decide, List.all_eq_true.1 (by decide), .nil _,
      .inr (.inr (.inl ⟨rfl, rfl⟩))⟩)
  | _ => exact .inl ⟨_, rfl, rfl, fun _ => .nil _⟩

/-- A word is of one kind. -/
theorem IsWord.kind_eq {t u : Token} (ht : t.IsWord) (hu : u.IsWord) (h : t.text = u.text) :
    t.kind = u.kind := by
  obtain ⟨c, cs, htext, hfirst⟩ := ht.eq_first
  obtain ⟨d, ds, htext', hfirst'⟩ := hu.eq_first
  have hsame : c :: cs = d :: ds := by
    rw [← htext, ← htext', Segment.text, Segment.text, h]
  obtain ⟨rfl, rfl⟩ := List.cons.inj hsame
  exact (Segment.token.inj (hfirst.symm.trans hfirst')).1

/-- No other word is shown as the label of a kind that has just one spelling, and an `eof` is not,
either. -/
theorem shown_ne_label {t : Token} (ht : t.kind ≠ .eof → t.IsWord) {kind : Kind}
    (hkind : kind ∉ [.eof, .name, .number]) (hne : t.kind ≠ kind) : t.shown ≠ kind.label := by
  by_cases heof : t.kind = .eof
  · rw [shown, if_pos heof]
    cases kind with
    | eof => exact absurd heof hne
    | _ => decide
  · rw [shown, if_neg heof]
    exact fun htext => hne ((ht heof).kind_eq (isWord_ofKind hkind) htext)

end Token

/-- Words with a blank behind each of them make up a text with these tokens. -/
theorem Spells.of_isWord {words : List Token} (h : ∀ t ∈ words, t.IsWord) :
    Spells (words.flatMap fun t => t.text.toList ++ [' ']) words := by
  induction words with
  | nil => exact .nil
  | cons t words ih =>
    obtain ⟨ht, hwords⟩ := List.forall_mem_cons.1 h
    have hends : EndsWord (' ' :: words.flatMap fun t => t.text.toList ++ [' ']) :=
      Separates.endsWord ⟨' ', rfl, .inl rfl⟩
    simpa using ((ih hwords).blank rfl).word ht hends

/-- There is a text that spells the given words. -/
theorem Spells.exists_of_isWord {words : List Token} (h : ∀ t ∈ words, t.IsWord) :
    ∃ source : String, Spells source.toList words := by
  refine ⟨.ofList (words.flatMap fun t => t.text.toList ++ [' ']), ?_⟩
  rw [String.toList_ofList]
  exact of_isWord h

end ScopeScript
