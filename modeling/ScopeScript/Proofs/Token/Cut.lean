import ScopeScript.Token.Lexer

/-!
# Cutting a source text

`WellCut seg rest` says what a segment in front of the text `rest` has to be: comments and runs of
digits or of letters go as far as they can, and a slash is no start of a comment.  The segments of a
text are cut like this (`isCut_segments`), and in no other way (`IsCut.eq_segments`).
-/

namespace ScopeScript

/-- The word is spelled like the kind: each keyword has one spelling, and no name has it. -/
def Token.Kind.IsSpelled (kind : Token.Kind) (word : List Char) : Prop :=
  kind = .letWord ∧ word = "let".toList ∨ kind = .constWord ∧ word = "const".toList ∨
    kind = .fnWord ∧ word = "fn".toList ∨
    kind = .name ∧ word ≠ "let".toList ∧ word ≠ "const".toList ∧ word ≠ "fn".toList

theorem Token.Kind.isSpelled_iff {kind : Token.Kind} {word : List Char} :
    kind.IsSpelled word ↔ kind = ofWord (String.ofList word) := by
  have hofList (s : String) : String.ofList word = s ↔ word = s.toList := by
    rw [← String.toList_inj, String.toList_ofList]
  have hlc : "let".toList ≠ "const".toList := by decide
  have hlf : "let".toList ≠ "fn".toList := by decide
  have hcf : "const".toList ≠ "fn".toList := by decide
  simp only [IsSpelled, ofWord, keyword?, hofList]
  generalize "let".toList = l, "const".toList = c, "fn".toList = f at hlc hlf hcf ⊢
  by_cases hl : word = l
  · simp [hl, hlc, hlf]
  by_cases hc : word = c
  · simp [hc, hlc.symm, hcf]
  by_cases hf : word = f
  · simp [hf, hlf.symm, hcf.symm]
  · simp [hl, hc, hf]

namespace Segment

/-- The next character, if there is one, is none of those that `p` holds of. -/
def Stops (p : Char → Prop) (rest : List Char) : Prop := ∀ c ∈ rest.head?, ¬p c

/-- The segment is cut right in front of the text `rest`. -/
def WellCut : Segment → List Char → Prop
  | blank c, _ => c = ' ' ∨ c = '\t' ∨ c = '\r'
  | newline, _ => True
  | comment text, rest =>
    (∃ body, text = '/' :: '/' :: body ∧ '\n' ∉ body) ∧ Stops (· ≠ '\n') rest
  | token kind text, rest =>
    (∃ c, text = [c] ∧ Token.Kind.ofChar? c = some kind ∧ (c = '/' → Stops (· = '/') rest)) ∨
    (kind = .number ∧ text ≠ [] ∧ (∀ c ∈ text, c.isDigit = true) ∧
      Stops (·.isDigit = true) rest) ∨
    (∃ c cs, text = c :: cs ∧ Text.isAlphabetic c = true ∧
      (∀ d ∈ cs, Text.isNamePart d = true) ∧ Stops (Text.isNamePart · = true) rest ∧
      kind.IsSpelled text)
  | stray c, _ => c ∉ [' ', '\t', '\r', '\n'] ∧ Token.Kind.ofChar? c = none ∧
      c.isDigit = false ∧ Text.isAlphabetic c = false

/-- The text is the segments joined, each cut right in front of the later ones. -/
structure IsCut (cs : List Char) (segs : List Segment) : Prop where
  join : segs.flatMap text = cs
  wellCut : ∀ pre seg post, segs = pre ++ seg :: post → seg.WellCut (post.flatMap text)

/-! ## The segments of a text are a cut -/

theorem stops_takeWhile (p : Char → Bool) (cs : List Char) :
    Stops (p · = true) (cs.drop (cs.takeWhile p).length) := by
  intro c hc hp
  have hsplit := congrArg (List.drop (cs.takeWhile p).length)
    (List.takeWhile_append_dropWhile (p := p) (l := cs)).symm
  rw [List.drop_left] at hsplit
  rw [hsplit] at hc
  have hhead := List.head?_dropWhile_not p cs
  rw [hc] at hhead
  simp [hp] at hhead

theorem mem_takeWhile {p : Char → Bool} {c : Char} {cs : List Char} (h : c ∈ cs.takeWhile p) :
    p c = true :=
  List.all_eq_true.1 (List.all_takeWhile (l := cs)) c h

theorem first_wellCut (c : Char) (cs : List Char) :
    (first c cs).WellCut ((c :: cs).drop (first c cs).text.length) := by
  unfold first
  split
  · trivial
  rename_i hnewline
  split
  · rename_i hblank
    simpa [isBlank, WellCut, or_assoc] using hblank
  rename_i hblank
  split
  · rename_i hslash
    obtain ⟨rfl, hslash⟩ := hslash
    obtain ⟨ds, rfl⟩ := List.head?_eq_some_iff.1 hslash
    refine ⟨⟨ds.takeWhile (· ≠ '\n'), rfl, fun hmem => ?_⟩, ?_⟩
    · simpa using mem_takeWhile hmem
    · simpa [text] using stops_takeWhile (· ≠ '\n') ('/' :: ds)
  rename_i hslash
  split
  · rename_i kind hkind
    refine .inl ⟨c, rfl, hkind, fun hc d hd hdc => hslash ⟨hc, ?_⟩⟩
    rw [← hdc]
    simpa [text] using hd
  rename_i hkind
  split
  · rename_i hdigit
    refine .inr (.inl ⟨rfl, by simp, ?_, ?_⟩)
    · intro d hd
      obtain rfl | hd := List.mem_cons.1 hd
      · exact hdigit
      · exact mem_takeWhile hd
    · simpa [text] using stops_takeWhile Char.isDigit cs
  rename_i hdigit
  split
  · rename_i halpha
    refine .inr (.inr ⟨c, _, rfl, halpha, fun d hd => mem_takeWhile hd, ?_, ?_⟩)
    · simpa [text] using stops_takeWhile Text.isNamePart cs
    · exact Token.Kind.isSpelled_iff.2 rfl
  · rename_i halpha
    simp only [isBlank, Bool.or_eq_true, beq_iff_eq, not_or] at hblank
    exact ⟨by simp [hblank, hnewline], hkind, by simpa using hdigit, by simpa using halpha⟩

theorem isCut_nil : IsCut [] [] :=
  ⟨rfl, by simp⟩

theorem IsCut.cons {seg : Segment} {cs : List Char} {segs : List Segment}
    (hseg : seg.WellCut cs) (hsegs : IsCut cs segs) : IsCut (seg.text ++ cs) (seg :: segs) := by
  refine ⟨by rw [List.flatMap_cons, hsegs.join], fun pre s post heq => ?_⟩
  cases pre with
  | nil =>
    obtain ⟨rfl, rfl⟩ := List.cons.inj heq
    rwa [hsegs.join]
  | cons x pre => exact hsegs.wellCut pre s post (List.cons.inj heq).2

theorem IsCut.uncons {seg : Segment} {cs : List Char} {segs : List Segment}
    (h : IsCut cs (seg :: segs)) :
    ∃ ds, cs = seg.text ++ ds ∧ seg.WellCut ds ∧ IsCut ds segs := by
  refine ⟨segs.flatMap text, ?_, h.wellCut [] seg segs rfl, rfl, fun pre s post heq => ?_⟩
  · rw [← h.join, List.flatMap_cons]
  · exact h.wellCut (seg :: pre) s post (by rw [heq, List.cons_append])

/-- The segments of a text are cut right. -/
theorem isCut_segments (cs : List Char) : IsCut cs (segments cs) := by
  fun_induction segments cs with
  | case1 => exact isCut_nil
  | case2 c cs ih =>
    have hcons := ih.cons (first_wellCut c cs)
    obtain ⟨ds, hds⟩ := first_isPrefix c cs
    have hdrop : (c :: cs).drop (first c cs).text.length = ds := by rw [← hds, List.drop_left]
    rw [hdrop] at hcons ⊢
    rwa [hds] at hcons

/-! ## A text is cut in one way -/

theorem takeWhile_append {p : Char → Bool} {body rest : List Char} (hbody : ∀ d ∈ body, p d = true)
    (hrest : Stops (p · = true) rest) : (body ++ rest).takeWhile p = body := by
  rw [List.takeWhile_append_of_pos hbody]
  cases rest with
  | nil => simp
  | cons d ds =>
    have hd : p d = false := by simpa using hrest d rfl
    rw [List.takeWhile_cons_of_neg (by simp [hd]), List.append_nil]

/-- Characters that are tokens on their own neither separate tokens nor belong to longer ones. -/
theorem alone_of_ofChar? {c : Char} {kind : Token.Kind} (h : Token.Kind.ofChar? c = some kind) :
    c ≠ '\n' ∧ isBlank c = false ∧ c.isDigit = false ∧ Text.isAlphabetic c = false := by
  unfold Token.Kind.ofChar? at h
  split at h
  all_goals cases h
  all_goals decide

theorem not_isAlphabetic_of_isDigit {c : Char} (h : c.isDigit = true) :
    Text.isAlphabetic c = false := by
  have hdigit := (Char.isDigit_iff_toNat.1 h).2
  have habove {d : Char} (hd : '9'.toNat < d.toNat) : ¬c.val ≥ d.val := fun hle =>
    absurd (Nat.le_trans (UInt32.le_iff_toNat_le.1 hle) hdigit) (Nat.not_le.2 hd)
  have hupper : c.isUpper = false :=
    decide_eq_false fun hletter => habove (by decide) hletter.1
  have hlower : c.isLower = false := by
    show (decide (c.val ≥ 'a'.val) && decide (c.val ≤ 'z'.val)) = false
    rw [decide_eq_false (habove (by decide)), Bool.false_and]
  have halpha : c.isAlpha = false := by
    show (c.isUpper || c.isLower) = false
    rw [hupper, hlower, Bool.false_or]
  have hascii : c.toNat < 0x80 := Nat.lt_of_le_of_lt hdigit (by decide)
  rw [Text.isAlphabetic, if_pos hascii, halpha]

/-- Letters and digits neither separate tokens nor are tokens on their own. -/
theorem ofChar?_eq_none {c : Char} (h : c.isDigit = true ∨ Text.isAlphabetic c = true) :
    c ≠ '\n' ∧ isBlank c = false ∧ Token.Kind.ofChar? c = none := by
  refine ⟨?_, ?_, ?_⟩
  · rintro rfl
    revert h
    decide
  · cases hblank : isBlank c with
    | false => rfl
    | true =>
      simp only [isBlank, Bool.or_eq_true, beq_iff_eq] at hblank
      obtain (rfl | rfl) | rfl := hblank
      all_goals revert h; decide
  · cases hkind : Token.Kind.ofChar? c with
    | none => rfl
    | some kind =>
      obtain ⟨-, -, hdigit, halpha⟩ := alone_of_ofChar? hkind
      simp [hdigit, halpha] at h

theorem WellCut.eq_first {seg : Segment} {rest : List Char} (h : seg.WellCut rest) :
    ∃ c cs, seg.text ++ rest = c :: cs ∧ first c cs = seg := by
  cases seg with
  | blank c =>
    refine ⟨c, rest, rfl, ?_⟩
    obtain rfl | rfl | rfl := h
    all_goals rfl
  | newline => exact ⟨'\n', rest, rfl, rfl⟩
  | comment text =>
    obtain ⟨⟨body, rfl, hbody⟩, hrest⟩ := h
    refine ⟨'/', '/' :: body ++ rest, rfl, ?_⟩
    have hline : ('/' :: body ++ rest).takeWhile (· ≠ '\n') = '/' :: body := by
      refine takeWhile_append (fun d hd => ?_) (by simpa [Stops] using hrest)
      obtain rfl | hd := List.mem_cons.1 hd
      · rfl
      · exact decide_eq_true fun heq => hbody (heq ▸ hd)
    simp only [first, hline]
    simp [isBlank]
  | token kind text =>
    obtain ⟨c, rfl, hkind, hslash⟩ | ⟨rfl, hne, hdigits, hrest⟩ |
      ⟨c, cs, rfl, halpha, hparts, hrest, hword⟩ := h
    · refine ⟨c, rest, rfl, ?_⟩
      obtain ⟨hnewline, hblank, -, -⟩ := alone_of_ofChar? hkind
      have hcomment : ¬(c = '/' ∧ rest.head? = some '/') :=
        fun ⟨hc, hhead⟩ => hslash hc '/' hhead rfl
      simp only [first, if_neg hnewline, hblank, if_neg hcomment, hkind]
      rfl
    · obtain ⟨c, cs, rfl⟩ := List.exists_cons_of_ne_nil hne
      refine ⟨c, cs ++ rest, rfl, ?_⟩
      have hdigit : c.isDigit = true := hdigits c List.mem_cons_self
      have hcs := takeWhile_append (fun d hd => hdigits d (List.mem_cons_of_mem c hd)) hrest
      obtain ⟨hnewline, hblank, hkind⟩ := ofChar?_eq_none (.inl hdigit)
      have hcomment : ¬(c = '/' ∧ (cs ++ rest).head? = some '/') := by
        rintro ⟨rfl, -⟩
        cases hkind
      simp only [first, if_neg hnewline, hblank, if_neg hcomment, hkind, if_pos hdigit, hcs]
      rfl
    · refine ⟨c, cs ++ rest, rfl, ?_⟩
      have hcs := takeWhile_append hparts hrest
      obtain ⟨hnewline, hblank, hnone⟩ := ofChar?_eq_none (.inr halpha)
      have hcomment : ¬(c = '/' ∧ (cs ++ rest).head? = some '/') := by
        rintro ⟨rfl, -⟩
        cases hnone
      have hdigit : c.isDigit ≠ true := fun hdigit => by
        rw [not_isAlphabetic_of_isDigit hdigit] at halpha
        cases halpha
      rw [Token.Kind.isSpelled_iff.1 hword]
      simp only [first, if_neg hnewline, hblank, if_neg hcomment, hnone, if_neg hdigit, hcs]
      rw [if_pos halpha]
      rfl
  | stray c =>
    obtain ⟨hblank, hkind, hdigit, halpha⟩ := h
    simp only [List.mem_cons, List.not_mem_nil, or_false, not_or] at hblank
    refine ⟨c, rest, rfl, ?_⟩
    have hcomment : ¬(c = '/' ∧ rest.head? = some '/') := by
      rintro ⟨rfl, -⟩
      cases hkind
    simp [first, isBlank, hblank, hcomment, hkind, hdigit, halpha]

/-- A text is cut right in no other way than into its segments. -/
theorem IsCut.eq_segments {cs : List Char} {segs : List Segment} (h : IsCut cs segs) :
    segs = segments cs := by
  induction segs generalizing cs with
  | nil =>
    rw [← h.join, List.flatMap_nil, segments]
  | cons seg segs ih =>
    obtain ⟨ds, rfl, hseg, hsegs⟩ := h.uncons
    obtain ⟨c, cs, heq, rfl⟩ := hseg.eq_first
    rw [heq, segments, ← heq, List.drop_left, ← ih hsegs]

end Segment

end ScopeScript
