import ScopeScript.Proofs.Syntax.Recognition
import ScopeScript.Proofs.Token.Joining

/-!
# Joined programs

Statements may be put behind statements unless the last of these is an expression without a
semicolon and an opening parenthesis follows.  For source texts with a newline between them the
lines of the second one are moved, which the grammar does not see.
-/

namespace ScopeScript

namespace Grammar

/-! ## Lines -/

theorem headKind_shift (lines : Nat) (ts : List Token) :
    headKind (ts.map (.shift lines)) = headKind ts := by
  cases ts <;> rfl

/-- The lines of tokens are of no importance to the grammar. -/
theorem Derives.shift {r : Rule} {ts : List Token} {x : r.Tree} (h : Derives r ts x)
    (lines : Nat) : Derives r (ts.map (.shift lines)) x := by
  induction h with
  | program _ ih => exact .program ih
  | noStatement => exact .noStatement
  | sumEnd => exact .sumEnd
  | productEnd => exact .productEnd
  | noSuffix => exact .noSuffix
  | emptyList => exact .emptyList
  | declareOnly hk hx hc => exact .declareOnly (x := .shift lines _) hk hx hc
  | shorthand hx => exact .shorthand (x := .shift lines _) hx
  | name hx => exact .name (x := .shift lines _) hx
  | number hdigits ht => exact .number (t := .shift lines _) hdigits ht
  | word hx => exact .word (x := .shift lines _) hx
  | expr _ ih => exact .expr ih
  | operand _ ih => exact .operand ih
  | one _ ih => exact .one ih
  | list _ ih => exact .list ih
  | keyed hx hc _ ih => exact .keyed (x := .shift lines _) (c := .shift lines _) hx hc ih
  | dot hd _ ih => exact .dot (d := .shift lines _) hd ih
  | statements _ _ ih ihrest =>
    rw [List.map_append]
    exact .statements ih ihrest
  | bareStatements _ _ hnext ih ihrest =>
    rw [List.map_append]
    exact .bareStatements ih ihrest (by rwa [headKind_shift])
  | declare hk hx hq _ hc ih =>
    simp only [List.map_cons, List.map_append, List.map_nil]
    exact .declare (x := .shift lines _) hk hx hq ih hc
  | define hk hx hl _ hr hb _ hc ihparams ihbody =>
    simp only [List.map_cons, List.map_append, List.map_nil]
    exact .define (x := .shift lines _) hk hx hl ihparams hr hb ihbody hc
  | exprStatement _ hc ih =>
    rw [List.map_append]
    exact .exprStatement (c := .shift lines _) ih hc
  | assign _ hq _ ihtarget ihvalue =>
    rw [List.map_append]
    exact .assign (q := .shift lines _) ihtarget hq ihvalue
  | object hl _ hr _ ih ihss =>
    simp only [List.map_cons, List.map_append]
    exact .object (l := .shift lines _) (r := .shift lines _) hl ih hr ihss
  | sum _ _ ih ihops =>
    rw [List.map_append]
    exact .sum ih ihops
  | product _ _ ih ihops =>
    rw [List.map_append]
    exact .product ih ihops
  | chain _ _ ih ihss =>
    rw [List.map_append]
    exact .chain ih ihss
  | suffixes _ _ ih ihss =>
    rw [List.map_append]
    exact .suffixes ih ihss
  | sumStep ht _ _ ih ihops =>
    rw [List.map_cons, List.map_append]
    exact .sumStep (t := .shift lines _) ht ih ihops
  | productStep ht _ _ ih ihops =>
    rw [List.map_cons, List.map_append]
    exact .productStep (t := .shift lines _) ht ih ihops
  | index hl _ hr ih =>
    rw [List.map_cons, List.map_append]
    exact .index (l := .shift lines _) (r := .shift lines _) hl ih hr
  | call hl _ hr ih =>
    rw [List.map_cons, List.map_append]
    exact .call (l := .shift lines _) (r := .shift lines _) hl ih hr
  | parens hl _ hr ih =>
    rw [List.map_cons, List.map_append]
    exact .parens (l := .shift lines _) (r := .shift lines _) hl ih hr
  | wordParens hl _ hr ih =>
    rw [List.map_cons, List.map_append]
    exact .wordParens (l := .shift lines _) (r := .shift lines _) hl ih hr
  | more _ hc _ ih ihrest =>
    rw [List.map_append]
    exact .more (c := .shift lines _) ih hc ihrest

/-! ## Semicolons -/

/-- Whether the phrases of the rule have statements in them. -/
def Rule.hasStatements : Rule → Bool
  | program | statements | statement => true
  | separated item | list item => item.hasStatements
  | _ => false

/-- There are no semicolons but those of statements. -/
theorem Derives.kind_ne_semicolon {r : Rule} {ts : List Token} {x : r.Tree}
    (h : Derives r ts x) (hr : r.hasStatements = false) : ∀ t ∈ ts, t.kind ≠ .semicolon := by
  induction h with
  | program | noStatement | statements | bareStatements | declareOnly | declare | define
  | exprStatement => cases hr
  | sumEnd | productEnd | noSuffix | emptyList => simp
  | expr _ ih | operand _ ih => exact ih rfl
  | one _ ih | list _ ih => exact ih hr
  | shorthand hx | name hx | word hx => simp [hx]
  | number _ ht => simp [ht]
  | sum _ _ ih ih' | product _ _ ih ih' | chain _ _ ih ih' | suffixes _ _ ih ih' =>
    exact List.forall_mem_append.2 ⟨ih rfl, ih' rfl⟩
  | assign _ hq _ ih ih' =>
    exact List.forall_mem_append.2 ⟨ih rfl, List.forall_mem_cons.2 ⟨by simp [hq], ih' rfl⟩⟩
  | more _ hc _ ih ih' =>
    exact List.forall_mem_append.2 ⟨ih hr, List.forall_mem_cons.2 ⟨by simp [hc], ih' hr⟩⟩
  | keyed hx hc _ ih =>
    exact List.forall_mem_cons.2 ⟨by simp [hx], List.forall_mem_cons.2 ⟨by simp [hc], ih rfl⟩⟩
  | dot hd _ ih => exact List.forall_mem_cons.2 ⟨by simp [hd], ih rfl⟩
  | sumStep ht _ _ ih ih' =>
    refine List.forall_mem_cons.2 ⟨fun hsemicolon => ?_, List.forall_mem_append.2 ⟨ih rfl, ih' rfl⟩⟩
    rw [hsemicolon] at ht
    cases ht
  | productStep ht _ _ ih ih' =>
    refine List.forall_mem_cons.2 ⟨fun hsemicolon => ?_, List.forall_mem_append.2 ⟨ih rfl, ih' rfl⟩⟩
    rw [hsemicolon] at ht
    cases ht
  | object hl _ hc _ ih ih' =>
    refine List.forall_mem_cons.2 ⟨by simp [hl], List.forall_mem_append.2 ⟨ih rfl, ?_⟩⟩
    exact List.forall_mem_cons.2 ⟨by simp [hc], ih' rfl⟩
  | index hl _ hc ih | call hl _ hc ih | parens hl _ hc ih | wordParens hl _ hc ih =>
    exact List.forall_mem_cons.2 ⟨by simp [hl], List.forall_mem_append.2 ⟨ih rfl, by simp [hc]⟩⟩

/-! ## Statements behind statements -/

theorem Derives.eq_nil_of_statements {body : List Stmt} (h : Derives .statements [] body) :
    body = [] := by
  generalize hts : ([] : List Token) = ts at h
  cases h with
  | noStatement => rfl
  | statements h | bareStatements h =>
    exact absurd (List.append_eq_nil_iff.1 hts.symm).1 (h.ne_nil (by decide))

/-- A parenthesis behind the tokens `ts` of the statements `body` is no part of them. -/
def Ends (ts : List Token) (body : List Stmt) : Prop :=
  ts = [] ∨ (∃ t, ts.getLast? = some t ∧ t.kind = .semicolon) ∨
    ∃ name params inner, body.getLast? = some (.define name params inner)

theorem Ends.tail {ts us : List Token} {s : Stmt} {rest : List Stmt}
    (hrest : Derives .statements us rest) (h : Ends (ts ++ us) (s :: rest)) : Ends us rest := by
  cases us with
  | nil => exact .inl rfl
  | cons u us =>
    obtain h | ⟨t, ht, hkind⟩ | ⟨name, params, inner, h⟩ := h
    · exact absurd (List.append_eq_nil_iff.1 h).2 (List.cons_ne_nil u us)
    · rw [List.getLast?_append, List.getLast?_cons, Option.some_or, ← List.getLast?_cons] at ht
      exact .inr (.inl ⟨t, ht, hkind⟩)
    · cases rest with
      | nil =>
        generalize u :: us = ts at hrest ⊢
        cases hrest
        exact .inl rfl
      | cons s' rest =>
        rw [List.getLast?_cons_cons] at h
        exact .inr (.inr ⟨name, params, inner, h⟩)

theorem Derives.not_ends {ts : List Token} {e : Expr} (h : Derives .expr ts e) :
    ¬Ends ts [Stmt.expr e] := by
  rintro (rfl | ⟨t, ht, hkind⟩ | ⟨name, params, inner, hlast⟩)
  · exact h.ne_nil (by decide) rfl
  · exact h.kind_ne_semicolon rfl t (List.mem_of_getLast? ht) hkind
  · cases hlast

/-- Statements follow one another, unless a parenthesis follows an expression without a semicolon.
-/
theorem Derives.statements_append {ts us : List Token} {body later : List Stmt}
    (h : Derives .statements ts body) (hlater : Derives .statements us later)
    (hnext : headKind us ≠ .leftParen ∨ Ends ts body) :
    Derives .statements (ts ++ us) (body ++ later) := by
  induction body generalizing ts with
  | nil =>
    cases h
    exact hlater
  | cons s rest ih =>
    cases h with
    | statements h hrest =>
      rw [List.append_assoc]
      exact .statements h (ih hrest (hnext.imp_right (.tail hrest)))
    | @bareStatements ts ts' e _ h hrest hparen =>
      rw [List.append_assoc]
      refine .bareStatements h (ih hrest (hnext.imp_right (.tail hrest))) ?_
      cases ts' with
      | cons t ts' => exact hparen
      | nil =>
        obtain rfl := hrest.eq_nil_of_statements
        rw [List.append_nil] at hnext
        exact hnext.resolve_right h.not_ends

end Grammar

/-! ## Texts -/

/-- The tokens of a source text without the end of the text. -/
def Token.wordsOf (source : String) : List Token :=
  match ofSource source with
  | .ok ts => ts.dropLast
  | .error _ => []

namespace Program

open Grammar

/-- A text that is a program is derived by the grammar from its tokens. -/
theorem exists_of_ofSource {source : String} {p : Program} (h : ofSource source = .ok p) :
    ∃ final, Token.ofSource source = .ok (Token.wordsOf source ++ [.eof final]) ∧
      Derives .program (Token.wordsOf source) p := by
  unfold ofSource at h
  unfold Token.wordsOf
  cases hts : Token.ofSource source with
  | error e =>
    rw [hts] at h
    cases h
  | ok ts =>
    rw [hts] at h
    obtain ⟨body, final, rfl, hbody⟩ := Token.exists_of_ofSource hts
    simp only [List.dropLast_concat]
    refine ⟨final, rfl, derives_of_ofTokens rfl (fun t ht => (hbody t ht).1) ?_ h⟩
    exact fun t ht => (hbody t ht).2

/-- Two texts that are programs are one with a newline between them, and its statements are those of
both, unless a parenthesis at the start of the latter may be a part of the former's last expression.
-/
theorem ofSource_join {a b : String} {p q : Program} (hp : ofSource a = .ok p)
    (hq : ofSource b = .ok q)
    (hnext : headKind (Token.wordsOf b) ≠ .leftParen ∨ Ends (Token.wordsOf a) p.body) :
    ofSource (a ++ "\n" ++ b) = .ok ⟨p.body ++ q.body⟩ := by
  obtain ⟨final, ha, hderives⟩ := exists_of_ofSource hp
  obtain ⟨final', hb, hderives'⟩ := exists_of_ofSource hq
  have htokens := Token.ofSource_join ha hb
  rw [List.map_append, ← List.append_assoc] at htokens
  have hjoined : Derives .program (Token.wordsOf a ++ (Token.wordsOf b).map (.shift final))
      (Program.mk (p.body ++ q.body)) := by
    generalize Token.wordsOf a = ts, Token.wordsOf b = us at hderives hderives' hnext
    cases hderives with
    | program h =>
      cases hderives' with
      | program h' =>
        rw [← headKind_shift final] at hnext
        exact .program (h.statements_append (h'.shift final) hnext)
  rw [ofSource, htokens]
  exact ofTokens_of_derives rfl hjoined

end Program

end ScopeScript
