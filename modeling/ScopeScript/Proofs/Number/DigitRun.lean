import ScopeScript.Number.Reader

/-!
# Runs of digits

A run of ASCII digits is always the text of a number, the one nearest to the digits read in base
ten (`parse?_eq_some_of_isDigitRun`).
-/

namespace ScopeScript.Number

/-- The text is a run of ASCII digits. -/
def IsDigitRun (text : String) : Prop := text.toList ≠ [] ∧ ∀ c ∈ text.toList, c.isDigit = true

/-- The number that a run of digits stands for. -/
def ofDigitRun (text : String) : Float := ofDecimal (ofDigits text.toList) 0

theorem toLower_of_isDigit {c : Char} (h : c.isDigit = true) : c.toLower = c := by
  have hdigit := (Char.isDigit_iff_toNat.1 h).2
  have hupper : ¬(c.val ≥ 'A'.val ∧ c.val ≤ 'Z'.val) := by
    intro hletter
    exact absurd (Nat.le_trans (UInt32.le_iff_toNat_le.1 hletter.1) hdigit) (by decide)
  exact dif_neg hupper

theorem splitSign_of_isDigit {d : Char} (hd : d.isDigit = true) (cs : List Char) :
    splitSign (d :: cs) = (false, d :: cs) := by
  unfold splitSign
  split
  · next h =>
    obtain ⟨rfl, -⟩ := List.cons.inj h
    exact absurd hd (by decide)
  · next h =>
    obtain ⟨rfl, -⟩ := List.cons.inj h
    exact absurd hd (by decide)
  · rfl

theorem splitPoint_of_digits {cs : List Char} (h : ∀ c ∈ cs, c.isDigit = true) :
    splitPoint cs = (cs, [], []) := by
  have htake : cs.takeWhile Char.isDigit = cs := by
    have happend : (cs ++ []).takeWhile Char.isDigit = cs ++ [].takeWhile Char.isDigit :=
      List.takeWhile_append_of_pos h
    simpa using happend
  have hdrop : cs.dropWhile Char.isDigit = [] := by
    have happend : (cs ++ []).dropWhile Char.isDigit = [].dropWhile Char.isDigit :=
      List.dropWhile_append_of_pos h
    simpa using happend
  simp only [splitPoint, htake, hdrop]

theorem parseMagnitude?_of_digits {d : Char} {cs : List Char}
    (h : ∀ c ∈ d :: cs, c.isDigit = true) :
    parseMagnitude? (d :: cs) = some (ofDecimal (ofDigits (d :: cs)) 0) := by
  have hd : d.isDigit = true := h d List.mem_cons_self
  have hlower : (d :: cs).map Char.toLower = d :: cs.map Char.toLower := by
    rw [List.map_cons, toLower_of_isDigit hd]
  rw [parseMagnitude?, hlower]
  split
  · next e => exact absurd hd (by rw [(List.cons.inj e).1]; decide)
  · next e => exact absurd hd (by rw [(List.cons.inj e).1]; decide)
  · next e => exact absurd hd (by rw [(List.cons.inj e).1]; decide)
  · simp [splitPoint_of_digits h, exponent?]

/-- A run of digits is the text of a number. -/
theorem parse?_eq_some_of_isDigitRun {text : String} (h : IsDigitRun text) :
    parse? text = some (ofDigitRun text) := by
  obtain ⟨hne, hdigits⟩ := h
  obtain ⟨d, cs, hcs⟩ := List.exists_cons_of_ne_nil hne
  rw [hcs] at hdigits
  rw [parse?, ofDigitRun, hcs, splitSign_of_isDigit (hdigits d List.mem_cons_self)]
  simp [parseMagnitude?_of_digits hdigits]

end ScopeScript.Number
