import ScopeScript.Number.Layout
import ScopeScript.Proofs.Token.Words

/-!
# Numbers whose text is a name

In the plain layout a number starts with a digit or a minus, so that its text is no name.  There are
two exceptions: the text of what is no number is `NaN`, and that of positive infinity is `inf`
(`Layout.isName_render_plain_iff`).
-/

namespace ScopeScript

/-- A text that starts with something else than a letter is no name. -/
theorem Text.not_isName_ofList {c : Char} (hc : isNameStart c = false) (cs : List Char) :
    ¬IsName (String.ofList (c :: cs)) := by
  rintro ⟨⟨d, ds, hlist, hd, -⟩, -⟩
  rw [String.toList_ofList] at hlist
  obtain ⟨rfl, -⟩ := List.cons.inj hlist
  rw [hc] at hd
  cases hd

namespace Number

/-- The list starts with a digit. -/
def StartsWithDigit (cs : List Char) : Prop := ∃ c ds, cs = c :: ds ∧ c.isDigit = true

theorem StartsWithDigit.append {cs : List Char} (h : StartsWithDigit cs) (ds : List Char) :
    StartsWithDigit (cs ++ ds) := by
  obtain ⟨c, rest, rfl, hc⟩ := h
  exact ⟨c, rest ++ ds, rfl, hc⟩

theorem StartsWithDigit.take {cs : List Char} (h : StartsWithDigit cs) {n : Nat} (hn : 0 < n) :
    StartsWithDigit (cs.take n) := by
  obtain ⟨c, rest, rfl, hc⟩ := h
  obtain ⟨n, rfl⟩ := Nat.exists_eq_add_of_lt hn
  exact ⟨c, rest.take _, by rw [List.take_succ_cons], hc⟩

theorem Decimal.startsWithDigit_digits (d : Decimal) : StartsWithDigit d.digits := by
  have hne : Nat.toDigits 10 d.coefficient ≠ [] := Nat.toDigits_ne_nil
  obtain ⟨c, cs, hcs⟩ := List.exists_cons_of_ne_nil hne
  have hmem : c ∈ Nat.toDigits 10 d.coefficient := hcs ▸ List.mem_cons_self
  exact ⟨c, cs, hcs, Nat.isDigit_of_mem_toDigits (by decide) (by decide) hmem⟩

namespace Layout

theorem startsWithDigit_positionalText {ds : List Char} (hds : StartsWithDigit ds) (pointed : Bool)
    (exponent : Int) : StartsWithDigit (positionalText pointed ds exponent) := by
  unfold positionalText
  dsimp only
  split
  · exact (hds.append _).append _
  · split
    · have hpoint : 0 < (ds.length + exponent).toNat := by omega
      exact (hds.take hpoint).append _
    · exact ⟨'0', _, rfl, by decide⟩

/-- The plain text of a finite number starts with a digit, or with a minus in front of one. -/
theorem render_plain_of_finite {x : Float} (hnan : x.isNaN = false) (hinf : x.isInf = false) :
    ∃ cs, StartsWithDigit cs ∧
      plain.render x = String.ofList (if isNegative x then '-' :: cs else cs) := by
  refine ⟨plain.decimalText (Decimal.shortest plain.tie (Binary.ofFloat x)), ?_, ?_⟩
  · exact startsWithDigit_positionalText (Decimal.startsWithDigit_digits _) _ _
  · simp only [render, hnan, hinf, Bool.false_eq_true, if_false]

theorem render_plain_of_isNaN {x : Float} (hnan : x.isNaN = true) : plain.render x = "NaN" := by
  rw [render, if_pos hnan]

theorem render_plain_of_isInf {x : Float} (hnan : x.isNaN = false) (hinf : x.isInf = true) :
    plain.render x = if isNegative x then "-inf" else "inf" := by
  simp only [render, hnan, hinf, Bool.false_eq_true, if_false, if_true]
  split
  · rfl
  · rfl

/-- The text of a number is a name just if it is not a number, or positive infinity. -/
theorem isName_render_plain_iff (x : Float) :
    Text.IsName (plain.render x) ↔ x.isNaN = true ∨ x.isInf = true ∧ isNegative x = false := by
  by_cases hnan : x.isNaN = true
  · rw [render_plain_of_isNaN hnan]
    exact iff_of_true (by decide) (.inl hnan)
  rw [Bool.not_eq_true] at hnan
  by_cases hinf : x.isInf = true
  · rw [render_plain_of_isInf hnan hinf]
    cases isNegative x with
    | true =>
      refine iff_of_false ?_ (by rw [hnan]; simp)
      exact Text.not_isName_ofList (by decide) ['i', 'n', 'f']
    | false => exact iff_of_true (by decide) (.inr ⟨hinf, rfl⟩)
  rw [Bool.not_eq_true] at hinf
  obtain ⟨cs, ⟨c, ds, rfl, hc⟩, htext⟩ := render_plain_of_finite hnan hinf
  refine iff_of_false ?_ (by rw [hnan, hinf]; simp)
  rw [htext]
  cases isNegative x with
  | true => exact Text.not_isName_ofList (by decide) (c :: ds)
  | false => exact Text.not_isName_ofList (Segment.not_isAlphabetic_of_isDigit hc) ds

end Layout

end Number

end ScopeScript
