import Mathlib
import ScopeScript.CommandLine.Prompt

/-!
# Lines of an input

An input is cut after each newline.  The lines up to the first one that is not a text are those that
are answered.
-/

namespace ScopeScript.CommandLine.Prompt

/-- The bytes of a text. -/
def utf8 (text : String) : List UInt8 := text.toUTF8.data.toList

/-- Each line ends with a newline, the only one in it.  The last line may lack it, but is not
empty. -/
inductive Lines : List (List UInt8) → Prop
  | nil : Lines []
  | last {l : List UInt8} (hne : l ≠ []) (hl : 10 ∉ l) : Lines [l]
  | line {l : List UInt8} {ls : List (List UInt8)} (hl : 10 ∉ l) (hrest : Lines ls) :
      Lines ((l ++ [10]) :: ls)

/-- The first of the lines, if there is one, is not a text. -/
def NoTextFirst (ls : List (List UInt8)) : Prop := ∀ l ∈ ls.head?, ∀ text, utf8 text ≠ l

/-- The input starts with the lines that the texts are, and `rest` are the lines from the first one
on that is not a text. -/
structure Reads (stdin : List UInt8) (texts : List String) (rest : List (List UInt8)) : Prop where
  lines : Lines (texts.map utf8 ++ rest)
  flatten : (texts.map utf8 ++ rest).flatten = stdin
  noText : NoTextFirst rest

/-! ## Cutting -/

theorem Lines.cons {b : UInt8} {l : List UInt8} {ls : List (List UInt8)} (h : Lines (l :: ls))
    (hb : b ≠ 10) : Lines ((b :: l) :: ls) := by
  cases h with
  | last hne hl => exact .last (List.cons_ne_nil b l) (by simp [hb.symm, hl])
  | @line l _ hl hrest =>
    have hl' : 10 ∉ b :: l := by simp [hb.symm, hl]
    exact .line hl' hrest

theorem isLines_lines (bs : List UInt8) : Lines (lines bs) := by
  fun_induction lines bs with
  | case1 => exact .nil
  | case2 bs ih => exact .line (l := []) List.not_mem_nil ih
  | case3 b bs hb hempty ih => exact .last (by simp) (by simp [Ne.symm hb])
  | case4 b bs hb l ls hls ih =>
    rw [hls] at ih
    exact ih.cons hb

theorem lines_of_not_mem {l : List UInt8} (hl : 10 ∉ l) (hne : l ≠ []) : lines l = [l] := by
  induction l with
  | nil => exact absurd rfl hne
  | cons b l ih =>
    rw [List.mem_cons, not_or] at hl
    unfold lines
    rw [if_neg (Ne.symm hl.1)]
    by_cases hempty : l = []
    · rw [hempty]
      rfl
    · rw [ih hl.2 hempty]

theorem lines_append {l : List UInt8} (hl : 10 ∉ l) (bs : List UInt8) :
    lines (l ++ 10 :: bs) = (l ++ [10]) :: lines bs := by
  induction l with
  | nil => simp [lines]
  | cons b l ih =>
    rw [List.mem_cons, not_or] at hl
    rw [List.cons_append, lines, if_neg (Ne.symm hl.1), ih hl.2]
    rfl

/-- There is no other way to cut an input into lines. -/
theorem lines_flatten {ls : List (List UInt8)} (h : Lines ls) : lines ls.flatten = ls := by
  induction h with
  | nil => rfl
  | last hne hl => simpa using lines_of_not_mem hl hne
  | @line l ls hl _ ih => simp [lines_append hl, ih]

/-! ## Texts -/

theorem fromUTF8?_eq_some {bytes : ByteArray} {text : String} :
    String.fromUTF8? bytes = some text ↔ text.toUTF8 = bytes := by
  unfold String.fromUTF8?
  constructor
  · intro h
    split at h
    · cases h
      rfl
    · cases h
  · rintro rfl
    have hvalid : text.toUTF8.IsValidUTF8 := text.isValidUTF8
    rw [dif_pos hvalid]
    rfl

theorem fromUTF8?_eq_none {bytes : ByteArray} (h : ∀ text : String, text.toUTF8 ≠ bytes) :
    String.fromUTF8? bytes = none := by
  rw [Option.eq_none_iff_forall_ne_some]
  exact fun text htext => h text (fromUTF8?_eq_some.1 htext)

theorem fromUTF8?_eq_some_iff {l : List UInt8} {text : String} :
    String.fromUTF8? (ByteArray.mk l.toArray) = some text ↔ utf8 text = l := by
  rw [fromUTF8?_eq_some]
  constructor
  · intro h
    rw [utf8, h]
  · rintro rfl
    rfl

/-- Lines begin with texts, up to one that is not a text. -/
theorem exists_texts (ls : List (List UInt8)) :
    ∃ (texts : List String) (rest : List (List UInt8)),
      texts.map utf8 ++ rest = ls ∧ NoTextFirst rest := by
  induction ls with
  | nil => exact ⟨[], [], rfl, by simp [NoTextFirst]⟩
  | cons l ls ih =>
    by_cases htext : ∃ text, utf8 text = l
    · obtain ⟨text, rfl⟩ := htext
      obtain ⟨texts, rest, rfl, hrest⟩ := ih
      exact ⟨text :: texts, rest, rfl, hrest⟩
    · exact ⟨[], l :: ls, rfl, by simpa [NoTextFirst] using htext⟩

theorem exists_reads (stdin : List UInt8) : ∃ texts rest, Reads stdin texts rest := by
  obtain ⟨texts, rest, hlines, hrest⟩ := exists_texts (lines stdin)
  refine ⟨texts, rest, ?_, ?_, hrest⟩
  · rw [hlines]
    exact isLines_lines stdin
  · rw [hlines, flatten_lines]

theorem Reads.eq_lines {stdin : List UInt8} {texts : List String} {rest : List (List UInt8)}
    (h : Reads stdin texts rest) : Prompt.lines stdin = texts.map utf8 ++ rest := by
  rw [← h.flatten, lines_flatten h.lines]

end ScopeScript.CommandLine.Prompt
