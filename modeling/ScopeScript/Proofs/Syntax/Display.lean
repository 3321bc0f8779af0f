import ScopeScript.Proofs.Syntax.Layout
import ScopeScript.Proofs.Value.Data
import ScopeScript.Value.Printer

/-!
# Display texts as programs

The text that is printed for data is a program, with the expression for the data as its only
statement (`Value.IsData.ofSource_display`).
-/

namespace ScopeScript

open Grammar Segment

/-! ## Texts of phrases -/

/-- In front of whatever may follow a word, the text has the words of a phrase with the given
tree. -/
def Writes (r : Rule) (text : List Char) (x : r.Tree) : Prop :=
  ∃ ts, Derives r ts x ∧
    ∀ cs words, EndsWord cs → Spells cs words → Spells (text ++ cs) (ts ++ words)

theorem Spells.ofKind (k : Token.Kind) (hk : k ∉ [.eof, .name, .number]) {cs : List Char}
    {words : List Token} (hcs : EndsWord cs) (h : Spells cs words) :
    Spells (k.label.toList ++ cs) (.ofKind k :: words) :=
  h.word (Token.isWord_ofKind hk) hcs

namespace Writes

variable {text : List Char} {e : Expr}

theorem name {x : String} (hx : Text.IsName x) : Writes .expr x.toList (Expr.name x) :=
  ⟨[⟨.name, x, 0⟩], (Derives.name rfl).expr_of_primary, fun _ _ hcs h =>
    h.word (Token.isWord_name hx 0) hcs⟩

theorem number {text : String} (h : Number.IsDigitRun text) :
    Writes .expr text.toList (Expr.number (Number.ofDigitRun text)) :=
  ⟨[⟨.number, text, 0⟩], (Derives.number h rfl).expr_of_primary, fun _ _ hcs hwords =>
    hwords.word (Token.isWord_number h 0) hcs⟩

theorem keyed {key : String} (hkey : Text.IsName key) (h : Writes .expr text e) :
    Writes .entry (key.toList ++ ':' :: ' ' :: text) (Property.keyed key e) := by
  obtain ⟨ts, he, hspells⟩ := h
  refine ⟨⟨.name, key, 0⟩ :: .ofKind .colon :: ts, .keyed rfl rfl he, fun cs words hcs h => ?_⟩
  have hvalue : Spells (' ' :: (text ++ cs)) (ts ++ words) := (hspells cs words hcs h).blank rfl
  have hcolon : Spells (':' :: ' ' :: (text ++ cs)) (.ofKind .colon :: (ts ++ words)) :=
    hvalue.ofKind .colon (by decide) (.cons (by decide) _)
  simpa using hcolon.word (Token.isWord_name hkey 0) (.cons (by decide) _)

/-- Texts of an item with commas and blanks between them. -/
theorem separated {item : Rule} {texts : List String} {xs : List item.Tree}
    (h : List.Forall₂ (fun text x => Writes item text.toList x) texts xs) (hne : texts ≠ []) :
    Writes (.separated item) (", ".intercalate texts).toList xs := by
  induction h with
  | nil => exact absurd rfl hne
  | @cons text x texts xs hx hxs ih =>
    obtain ⟨ts, hx, hspells⟩ := hx
    cases hxs with
    | nil =>
      rw [String.intercalate_singleton]
      exact ⟨ts, .one hx, hspells⟩
    | @cons text' x' texts xs =>
      obtain ⟨us, hrest, hspells'⟩ := ih (List.cons_ne_nil _ _)
      refine ⟨ts ++ .ofKind .comma :: us, .more hx rfl hrest, fun cs words hcs h => ?_⟩
      let after := (", ".intercalate (text' :: texts)).toList ++ cs
      have hblank : Spells (' ' :: after) (us ++ words) := (hspells' cs words hcs h).blank rfl
      have hcomma : Spells (',' :: ' ' :: after) (.ofKind .comma :: (us ++ words)) :=
        hblank.ofKind .comma (by decide) (.cons (by decide) _)
      have htext := hspells _ _ (.cons (by decide) _) hcomma
      rw [String.intercalate_cons_cons, String.toList_append, String.toList_append]
      simpa [after] using htext

theorem emptyObject : Writes .expr ['{', '}'] (Expr.object []) := by
  refine ⟨[.ofKind .leftCurly, .ofKind .rightCurly], ?_, fun cs words hcs h => ?_⟩
  · have hentries : Derives (.list .entry) [] ([] : List Property) := .emptyList
    exact .expr (.object rfl hentries rfl .noSuffix)
  · have hclose := h.ofKind .rightCurly (by decide) hcs
    exact hclose.ofKind .leftCurly (by decide) (.cons (by decide) _)

theorem object {entries : List Property} (h : Writes (.separated .entry) text entries) :
    Writes .expr ('{' :: ' ' :: (text ++ [' ', '}'])) (Expr.object entries) := by
  obtain ⟨ts, hentries, hspells⟩ := h
  refine ⟨.ofKind .leftCurly :: (ts ++ [.ofKind .rightCurly]), ?_, fun cs words hcs h => ?_⟩
  · exact .expr (.object rfl (.list hentries) rfl .noSuffix)
  · have hclose : Spells (' ' :: '}' :: cs) (.ofKind .rightCurly :: words) :=
      (h.ofKind .rightCurly (by decide) hcs).blank rfl
    have htext : Spells (' ' :: (text ++ ' ' :: '}' :: cs)) (ts ++ .ofKind .rightCurly :: words) :=
      (hspells _ _ (.cons (by decide) _) hclose).blank rfl
    have hopen : Spells ('{' :: ' ' :: (text ++ ' ' :: '}' :: cs))
        (.ofKind .leftCurly :: (ts ++ .ofKind .rightCurly :: words)) :=
      htext.ofKind .leftCurly (by decide) (.cons (by decide) _)
    simpa using hopen

/-- The text of an expression is a program with nothing but this expression. -/
theorem ofSource {source : String} (h : Writes .expr source.toList e) :
    Program.ofSource source = .ok ⟨[.expr e]⟩ := by
  obtain ⟨ts, he, hspells⟩ := h
  have hsource := hspells [] [] (.nil _) .nil
  rw [List.append_nil] at hsource
  exact Program.ofSource_of_spells hsource (.program (.bareStatements he .noStatement nofun))

end Writes

/-! ## Texts of data -/

/-- The names of the values that are neither numbers nor objects. -/
theorem Text.isName_of_mem {x : String} (hx : x ∈ ["true", "false", "null"]) : IsName x := by
  revert x
  decide

theorem writes_displayFields {fields : Fields}
    (hkeys : ∀ field ∈ fields, Text.IsName field.1)
    (h : ∀ field ∈ fields, Writes .expr field.2.display.toList field.2.literal) :
    List.Forall₂ (fun text p => Writes .entry text.toList p) (displayFields fields)
      (Fields.literal fields) := by
  induction fields with
  | nil => exact .nil
  | cons field rest ih =>
    obtain ⟨key, v⟩ := field
    obtain ⟨hkey, hkeys⟩ := List.forall_mem_cons.1 hkeys
    obtain ⟨hv, h⟩ := List.forall_mem_cons.1 h
    refine .cons ?_ (ih hkeys h)
    simpa using Writes.keyed hkey hv

namespace Value.IsData

variable {v : Value}

/-- The text that is printed for data is one of the expression for it. -/
theorem writes (h : v.IsData) (hnumbers : ∀ x ∈ v.numbers, Number.ReadsBack x) :
    Writes .expr v.display.toList v.literal := by
  induction h with
  | null => exact .name (Text.isName_of_mem (by decide))
  | @number x hx =>
    obtain ⟨hdigits, hparse⟩ := hnumbers x (List.mem_singleton_self x)
    have hof := (Number.parse?_eq_some_of_isDigitRun hdigits).symm.trans hparse
    have hnumber := Writes.number hdigits
    rwa [Option.some.inj hof] at hnumber
  | bool b =>
    cases b with
    | true => exact .name (Text.isName_of_mem (by decide))
    | false => exact .name (Text.isName_of_mem (by decide))
  | @object fields _ hkeys _ ih =>
    have hfields := writes_displayFields hkeys fun field hfield =>
      ih field hfield fun x hx => hnumbers x (Fields.numbers_of_mem hfield hx)
    cases fields with
    | nil => exact .emptyObject
    | cons field rest =>
      have htext := (Writes.separated hfields (by simp [displayFields])).object
      simpa [display, literal] using htext

/-- The text that is printed for data is a program with nothing but the expression for it. -/
theorem ofSource_display (h : v.IsData) (hnumbers : ∀ x ∈ v.numbers, Number.ReadsBack x) :
    Program.ofSource v.display = .ok ⟨[.expr v.literal]⟩ :=
  (h.writes hnumbers).ofSource

end Value.IsData

end ScopeScript
