import ScopeScript.Proofs.Syntax.Reading

/-!
# What parsers read is derived

Whenever a parser of a rule ends with a result, the tokens that it read are a phrase of that rule
and the result is the tree of the phrase.  The bound that a parser is given has to reach as far as
the tokens do; then it also stops an expression only where no parenthesis follows.
-/

namespace ScopeScript

namespace Grammar

/-- At most `n` tokens, in which every number is a run of digits. -/
structure Fits (n : Nat) (us : List Token) : Prop where
  length_le : us.length ≤ n
  digits : ∀ t ∈ us, t.kind = .number → Number.IsDigitRun t.text

namespace Fits

variable {m n : Nat} {t : Token} {ts us : List Token}

theorem mono (h : Fits m us) (hmn : m ≤ n) : Fits n us := ⟨Nat.le_trans h.length_le hmn, h.digits⟩

theorem tail (h : Fits (n + 1) (t :: us)) : Fits n us :=
  ⟨Nat.le_of_succ_le_succ h.length_le, fun u hu => h.digits u (List.mem_cons_of_mem _ hu)⟩

theorem right (h : Fits n (ts ++ us)) : Fits n us := by
  refine ⟨?_, fun u hu => h.digits u (List.mem_append_right _ hu)⟩
  have := h.length_le
  rw [List.length_append] at this
  omega

theorem rest (h : Fits n (t :: us)) : Fits n us := right (show Fits n ([t] ++ us) from h)

theorem right_of_ne_nil (h : Fits (n + 1) (ts ++ us)) (hts : ts ≠ []) : Fits n us := by
  refine ⟨?_, h.right.digits⟩
  have := h.length_le
  have := List.length_pos_iff.2 hts
  rw [List.length_append] at *
  omega

theorem eq_nil (h : Fits 0 us) : us = [] := List.length_eq_zero_iff.1 (Nat.le_zero.1 h.length_le)

end Fits

end Grammar

namespace Parser

open Grammar TokenStream

variable {α : Type} {last : Token}

/-- Whenever the parser ends well on at most `n` tokens, it has read some of them, and `P` holds of
these, the result, and the tokens left. -/
def Reads (last : Token) (n : Nat) (m : Parser α) (P : List Token → α → List Token → Prop) : Prop :=
  ∀ us, Fits n us → ∀ x s', m (before last us) = .ok x s' →
    ∃ ts rest, us = ts ++ rest ∧ s' = before last rest ∧ P ts x rest

/-- What the parser reads is a phrase of the rule. -/
def Sound (last : Token) (n : Nat) (r : Rule) (m : Parser r.Tree) : Prop :=
  Reads last n m fun ts x _ => Derives r ts x

/-- What the parser reads is a phrase of the rule, and no parenthesis follows. -/
def Closing (last : Token) (n : Nat) (r : Rule) (m : Parser r.Tree) : Prop :=
  Reads last n m fun ts x rest => Derives r ts x ∧ headKind rest ≠ .leftParen

theorem Reads.mono {k n : Nat} {m : Parser α} {P : List Token → α → List Token → Prop}
    (h : Reads last n m P) (hkn : k ≤ n) : Reads last k m P :=
  fun us hus => h us (hus.mono hkn)

theorem Closing.sound {n : Nat} {r : Rule} {m : Parser r.Tree} (h : Closing last n r m) :
    Sound last n r m := by
  intro us hus x s' hx
  obtain ⟨ts, rest, hts, hs', hd, -⟩ := h us hus x s' hx
  exact ⟨ts, rest, hts, hs', hd⟩

section Lists

variable {item : Rule} {m : Parser item.Tree} {n : Nat}

theorem sound_commaSeparated (hlast : last.kind = .eof) (hm : Sound last n item m) :
    ∀ k ≤ n, Sound last k (.separated item) (commaSeparated m k) := by
  intro k
  induction k with
  | zero =>
    intro _ us hus x s' h
    rw [commaSeparated] at h
    obtain ⟨y, s₁, h₁, h⟩ := exists_of_bind_ok h
    obtain ⟨ts, rest, rfl, rfl, hd⟩ := hm us (hus.mono (Nat.zero_le n)) y s₁ h₁
    obtain ⟨rfl, rfl⟩ := eq_of_pure_ok h
    exact ⟨ts, rest, rfl, rfl, .one hd⟩
  | succ k ih =>
    intro hk us hus x s' h
    rw [commaSeparated] at h
    obtain ⟨y, s₁, h₁, h⟩ := exists_of_bind_ok h
    obtain ⟨ts, rest, rfl, rfl, hd⟩ := hm us (hus.mono hk) y s₁ h₁
    obtain ⟨b, s₂, h₂, h⟩ := exists_of_bind_ok h
    rcases cases_of_accept hlast (by decide) h₂ with
      ⟨rfl, c, rest, rfl, hc, rfl⟩ | ⟨rfl, -, rfl⟩
    · obtain ⟨ys, s₃, h₃, h⟩ := exists_of_bind_ok h
      obtain ⟨us, rest, rfl, rfl, hrest⟩ := ih (by omega) rest hus.right.tail ys s₃ h₃
      obtain ⟨rfl, rfl⟩ := eq_of_pure_ok h
      exact ⟨ts ++ c :: us, rest, by simp, rfl, .more hd hc hrest⟩
    · obtain ⟨rfl, rfl⟩ := eq_of_pure_ok h
      exact ⟨ts, rest, rfl, rfl, .one hd⟩

theorem reads_commaSeparatedUntil (hlast : last.kind = .eof) {close : Token.Kind}
    (hclose : close ≠ .eof) (hm : Sound last n item m) :
    Reads last n (commaSeparatedUntil close m n) fun ts xs _ =>
      ∃ us r, ts = us ++ [r] ∧ Derives (.list item) us xs ∧ r.kind = close := by
  intro us hus xs s' h
  rw [commaSeparatedUntil_before hlast] at h
  obtain ⟨ys, s₁, h₁, h⟩ := exists_of_bind_ok h
  obtain ⟨_, s₂, h₂, h⟩ := exists_of_bind_ok h
  obtain ⟨rfl, rfl⟩ := eq_of_pure_ok h
  have hitems : ∃ ts rest, us = ts ++ rest ∧ s₁ = before last rest ∧
      Derives (.list item) ts xs := by
    split at h₁
    · obtain ⟨rfl, rfl⟩ := eq_of_pure_ok h₁
      exact ⟨[], us, rfl, rfl, .emptyList⟩
    · obtain ⟨ts, rest, hts, hs₁, hd⟩ :=
        sound_commaSeparated hlast hm n (Nat.le_refl n) us hus xs s₁ h₁
      exact ⟨ts, rest, hts, hs₁, .list hd⟩
  obtain ⟨ts, rest, rfl, rfl, hd⟩ := hitems
  obtain ⟨r, rest, rfl, hr, rfl⟩ := exists_of_expect hlast hclose h₂
  exact ⟨ts ++ [r], rest, by simp, rfl, ts, r, rfl, hd, hr⟩

end Lists

/-! ## Expressions -/

section Expressions

variable {expr : Parser Expr} {n : Nat}

theorem sound_primary (hlast : last.kind = .eof) (hexpr : Closing last n .expr expr) :
    Sound last (n + 1) .primary (primary expr) := by
  intro us hus (e : Expr) s' h
  rw [primary, bind_ok (peekKind_before hlast us)] at h
  cases hkind : headKind us with
  | name =>
    obtain ⟨t, rest, rfl, ht⟩ := exists_cons_of_headKind (by decide) hkind
    simp only [hkind, bind_ok advance_before_cons] at h
    obtain ⟨rfl, rfl⟩ := eq_of_pure_ok h
    exact ⟨[t], rest, rfl, rfl, .name ht⟩
  | number =>
    obtain ⟨t, rest, rfl, ht⟩ := exists_cons_of_headKind (by decide) hkind
    have hdigits := hus.digits t List.mem_cons_self ht
    simp only [hkind, bind_ok advance_before_cons,
      Number.parse?_eq_some_of_isDigitRun hdigits] at h
    obtain ⟨rfl, rfl⟩ := eq_of_pure_ok h
    exact ⟨[t], rest, rfl, rfl, .number hdigits ht⟩
  | leftParen =>
    obtain ⟨l, rest, rfl, hl⟩ := exists_cons_of_headKind (by decide) hkind
    simp only [hkind, bind_ok advance_before_cons] at h
    obtain ⟨y, s₁, h₁, h⟩ := exists_of_bind_ok h
    obtain ⟨ts, rest, rfl, rfl, hd, -⟩ := hexpr rest hus.tail y s₁ h₁
    obtain ⟨_, s₂, h₂, h⟩ := exists_of_bind_ok h
    obtain ⟨r, rest, rfl, hr, rfl⟩ := exists_of_expect hlast (by decide) h₂
    obtain ⟨rfl, rfl⟩ := eq_of_pure_ok h
    exact ⟨l :: (ts ++ [r]), rest, by simp, rfl, .parens hl hd hr⟩
  | _ =>
    rw [hkind] at h
    cases h

theorem reads_arguments (hlast : last.kind = .eof) (hexpr : Closing last n .expr expr) :
    Reads last (n + 1) (arguments expr n) fun ts args _ =>
      ∃ l us r, ts = l :: (us ++ [r]) ∧ l.kind = .leftParen ∧ Derives (.list .expr) us args ∧
        r.kind = .rightParen := by
  intro us hus args s' h
  rw [arguments] at h
  obtain ⟨_, s₁, h₁, h⟩ := exists_of_bind_ok h
  obtain ⟨l, rest, rfl, hl, rfl⟩ := exists_of_expect hlast (by decide) h₁
  obtain ⟨ts, rest, rfl, rfl, us, r, rfl, hd, hr⟩ :=
    reads_commaSeparatedUntil hlast (by decide) hexpr.sound rest hus.tail args s' h
  exact ⟨l :: (us ++ [r]), rest, rfl, rfl, l, us, r, rfl, hl, hd, hr⟩

theorem reads_propertyName (hlast : last.kind = .eof) (hexpr : Closing last n .expr expr) :
    Reads last (n + 1) (propertyName (primary expr)) fun ts e _ =>
      ∃ x, e = .name x ∧ Derives .word ts x := by
  intro us hus e s' h
  obtain ⟨t, s₁, h₁, h⟩ := exists_of_bind_ok h
  obtain rfl : s₁ = before last us := by cases h₁; rfl
  obtain ⟨y, s₂, h₂, h⟩ := exists_of_bind_ok h
  obtain ⟨ts, rest, rfl, rfl, hd⟩ := sound_primary hlast hexpr us hus y s₂ h₂
  split at h
  · next x =>
    obtain ⟨rfl, rfl⟩ := eq_of_pure_ok h
    exact ⟨ts, rest, rfl, rfl, x, rfl, Derives.word_of_primary (Nat.le_refl _) hd⟩
  · cases h

/-- The suffixes behind an expression are read up to a token that starts none. -/
theorem reads_suffixes (hlast : last.kind = .eof) (hexpr : Closing last n .expr expr) :
    ∀ k ≤ n + 1, ∀ e, Reads last k (suffixes expr k e) fun ts e' rest =>
      ∃ ss : List Suffix, Derives .suffixes ts ss ∧ e' = applySuffixes e ss ∧
        headKind rest ≠ .leftParen := by
  intro k
  induction k with
  | zero =>
    intro _ e us hus x s' h
    obtain rfl := hus.eq_nil
    obtain ⟨rfl, rfl⟩ := eq_of_pure_ok h
    exact ⟨[], [], rfl, rfl, [], .noSuffix, rfl, by decide⟩
  | succ k ih =>
    intro hk e us hus x s' h
    rw [suffixes, bind_ok (peekKind_before hlast us)] at h
    cases hkind : headKind us with
    | dot =>
      obtain ⟨d, rest, rfl, hd⟩ := exists_cons_of_headKind (by decide) hkind
      simp only [hkind, bind_ok advance_before_cons] at h
      obtain ⟨y, s₁, h₁, h⟩ := exists_of_bind_ok h
      obtain ⟨ts, rest, rfl, rfl, z, rfl, hz⟩ :=
        reads_propertyName hlast hexpr rest (hus.tail.mono (by omega)) y s₁ h₁
      obtain ⟨us, rest, rfl, rfl, ss, hss, rfl, hrest⟩ :=
        ih (by omega) _ rest hus.tail.right x s' h
      exact ⟨(d :: ts) ++ us, rest, by simp, rfl, .dot z :: ss, .suffixes (.dot hd hz) hss, rfl,
        hrest⟩
    | leftBracket =>
      obtain ⟨l, rest, rfl, hl⟩ := exists_cons_of_headKind (by decide) hkind
      simp only [hkind, bind_ok advance_before_cons] at h
      obtain ⟨y, s₁, h₁, h⟩ := exists_of_bind_ok h
      obtain ⟨ts, rest, rfl, rfl, hy, -⟩ := hexpr rest (hus.tail.mono (by omega)) y s₁ h₁
      obtain ⟨_, s₂, h₂, h⟩ := exists_of_bind_ok h
      obtain ⟨r, rest, rfl, hr, rfl⟩ := exists_of_expect hlast (by decide) h₂
      obtain ⟨us, rest, rfl, rfl, ss, hss, rfl, hrest⟩ :=
        ih (by omega) _ rest hus.tail.right.rest x s' h
      exact ⟨(l :: (ts ++ [r])) ++ us, rest, by simp, rfl, .index y :: ss,
        .suffixes (.index hl hy hr) hss, rfl, hrest⟩
    | leftParen =>
      simp only [hkind] at h
      obtain ⟨args, s₁, h₁, h₂⟩ := exists_of_bind_ok h
      have hargs := reads_arguments (n := k) hlast (hexpr.mono (by omega))
      obtain ⟨ts, rest, rfl, rfl, l, us, r, rfl, hl, hd, hr⟩ := hargs us hus args s₁ h₁
      obtain ⟨vs, rest, rfl, rfl, ss, hss, rfl, hrest⟩ :=
        ih (by omega) _ rest (hus.right_of_ne_nil (List.cons_ne_nil _ _)) x s' h₂
      exact ⟨(l :: (us ++ [r])) ++ vs, rest, by simp, rfl, .call args :: ss,
        .suffixes (.call hl hd hr) hss, rfl, hrest⟩
    | _ =>
      simp only [hkind] at h
      obtain ⟨rfl, rfl⟩ := eq_of_pure_ok h
      exact ⟨[], us, rfl, rfl, [], .noSuffix, rfl, by rw [hkind]; decide⟩

theorem closing_chain (hlast : last.kind = .eof) (hexpr : Closing last n .expr expr) :
    Closing last (n + 1) .chain (chain expr (n + 1)) := by
  intro us hus e s' h
  rw [chain] at h
  obtain ⟨y, s₁, h₁, h⟩ := exists_of_bind_ok h
  obtain ⟨ts, rest, rfl, rfl, hd⟩ := sound_primary hlast hexpr us hus y s₁ h₁
  obtain ⟨us, rest, rfl, rfl, ss, hss, rfl, hrest⟩ :=
    reads_suffixes hlast hexpr (n + 1) (Nat.le_refl _) y rest hus.right e s' h
  exact ⟨ts ++ us, rest, by simp, rfl, .chain hd hss, hrest⟩

/-- Operations are read up to a token that is no operator.  The operands are given by `P` and the
operations by `T`. -/
theorem reads_operations (hlast : last.kind = .eof) {operator? : Token.Kind → Option Operator}
    (heof : operator? .eof = none) {operand : Parser Expr} {P : List Token → Expr → Prop}
    {T : List Token → List (Operator × Expr) → Prop} (hend : T [] [])
    (hstep : ∀ {t ts us o e ops}, operator? (Token.kind t) = some o → P ts e → T us ops →
      T (t :: (ts ++ us)) ((o, e) :: ops))
    (hm : Reads last n operand fun ts e rest => P ts e ∧ headKind rest ≠ .leftParen) :
    ∀ k ≤ n, ∀ lhs us, Fits k us → headKind us ≠ .leftParen → ∀ e s',
      operations operator? operand k lhs (before last us) = .ok e s' →
      ∃ ts rest ops, us = ts ++ rest ∧ s' = before last rest ∧ T ts ops ∧
        e = applyOperations lhs ops ∧ headKind rest ≠ .leftParen := by
  intro k
  induction k with
  | zero =>
    intro _ lhs us hus hnext e s' h
    obtain ⟨rfl, rfl⟩ := eq_of_pure_ok h
    exact ⟨[], us, [], rfl, rfl, hend, rfl, hnext⟩
  | succ k ih =>
    intro hk lhs us hus hnext e s' h
    rw [operations, bind_ok (peekKind_before hlast us)] at h
    cases ho : operator? (headKind us) with
    | none =>
      simp only [ho] at h
      obtain ⟨rfl, rfl⟩ := eq_of_pure_ok h
      exact ⟨[], us, [], rfl, rfl, hend, rfl, hnext⟩
    | some o =>
      cases us with
      | nil =>
        rw [headKind_nil, heof] at ho
        cases ho
      | cons t us =>
        simp only [ho, bind_ok advance_before_cons] at h
        obtain ⟨y, s₁, h₁, h⟩ := exists_of_bind_ok h
        obtain ⟨ts, rest, rfl, rfl, hd, hrest⟩ := hm us (hus.tail.mono (by omega)) y s₁ h₁
        obtain ⟨us, rest, ops, rfl, rfl, hops, rfl, hrest⟩ :=
          ih (by omega) _ rest hus.tail.right hrest e s' h
        exact ⟨t :: (ts ++ us), rest, (o, y) :: ops, by simp, rfl, hstep ho hd hops, rfl, hrest⟩

theorem closing_product (hlast : last.kind = .eof) (hexpr : Closing last n .expr expr) :
    Closing last (n + 1) .product (product expr (n + 1)) := by
  intro us hus e s' h
  rw [product] at h
  obtain ⟨y, s₁, h₁, h⟩ := exists_of_bind_ok h
  have hchain := closing_chain hlast hexpr
  obtain ⟨ts, rest, rfl, rfl, hd, hrest⟩ := hchain us hus y s₁ h₁
  obtain ⟨us, rest, ops, rfl, rfl, hops, rfl, hrest⟩ :=
    reads_operations (T := Derives .productTail) hlast rfl .productEnd .productStep hchain (n + 1)
      (Nat.le_refl _) y rest
      hus.right hrest e s' h
  exact ⟨ts ++ us, rest, by simp, rfl, .product hd hops, hrest⟩

theorem closing_sum (hlast : last.kind = .eof) (hexpr : Closing last n .expr expr) :
    Closing last (n + 1) .sum (sum expr (n + 1)) := by
  intro us hus e s' h
  rw [sum] at h
  obtain ⟨y, s₁, h₁, h⟩ := exists_of_bind_ok h
  have hproduct := closing_product hlast hexpr
  obtain ⟨ts, rest, rfl, rfl, hd, hrest⟩ := hproduct us hus y s₁ h₁
  obtain ⟨us, rest, ops, rfl, rfl, hops, rfl, hrest⟩ :=
    reads_operations (T := Derives .sumTail) hlast rfl .sumEnd .sumStep hproduct (n + 1)
      (Nat.le_refl _) y rest
      hus.right hrest e s' h
  exact ⟨ts ++ us, rest, by simp, rfl, .sum hd hops, hrest⟩

theorem sound_property (hlast : last.kind = .eof) (hexpr : Closing last n .expr expr) :
    Sound last (n + 1) .entry (property expr) := by
  intro us hus p s' h
  rw [property] at h
  obtain ⟨key, s₁, h₁, h⟩ := exists_of_bind_ok h
  obtain ⟨x, rest, rfl, hx, rfl, rfl⟩ := exists_of_nameOr hlast h₁
  obtain ⟨b, s₂, h₂, h⟩ := exists_of_bind_ok h
  rcases cases_of_accept hlast (by decide) h₂ with
    ⟨rfl, c, rest, rfl, hc, rfl⟩ | ⟨rfl, -, rfl⟩
  · obtain ⟨e, s₃, h₃, h⟩ := exists_of_bind_ok h
    obtain ⟨ts, rest, rfl, rfl, hd, -⟩ := hexpr rest hus.tail.rest e s₃ h₃
    obtain ⟨rfl, rfl⟩ := eq_of_pure_ok h
    exact ⟨x :: c :: ts, rest, rfl, rfl, .keyed hx hc hd⟩
  · obtain ⟨rfl, rfl⟩ := eq_of_pure_ok h
    exact ⟨[x], rest, rfl, rfl, .shorthand hx⟩

theorem closing_operand (hlast : last.kind = .eof) (hexpr : Closing last n .expr expr) :
    Closing last (n + 1) .operand (operand expr (n + 1)) := by
  intro us hus e s' h
  rw [operand] at h
  obtain ⟨b, s₁, h₁, h⟩ := exists_of_bind_ok h
  rcases cases_of_accept hlast (by decide) h₁ with
    ⟨rfl, l, rest, rfl, hl, rfl⟩ | ⟨rfl, -, rfl⟩
  · obtain ⟨entries, s₂, h₂, h₃⟩ := exists_of_bind_ok h
    have hclose : Token.Kind.rightCurly ≠ .eof := by decide
    have hentries := reads_commaSeparatedUntil hlast hclose (sound_property hlast hexpr)
    obtain ⟨_, rest, rfl, rfl, ts, r, rfl, hd, hr⟩ :=
      hentries rest (hus.tail.mono (Nat.le_succ n)) entries s₂ h₂
    obtain ⟨us, rest, rfl, rfl, ss, hss, rfl, hrest⟩ :=
      reads_suffixes hlast hexpr (n + 1) (Nat.le_refl _) _ rest
        (hus.tail.right.mono (Nat.le_succ n)) e s' h₃
    exact ⟨l :: (ts ++ r :: us), rest, by simp, rfl, .object hl hd hr hss, hrest⟩
  · obtain ⟨ts, rest, rfl, rfl, hd, hrest⟩ := closing_sum hlast hexpr us hus e s' h
    exact ⟨ts, rest, rfl, rfl, .operand hd, hrest⟩

theorem closing_assignment (hlast : last.kind = .eof) (hexpr : Closing last n .expr expr) :
    Closing last (n + 1) .expr (assignment expr (n + 1)) := by
  intro us hus e s' h
  rw [assignment] at h
  obtain ⟨target, s₁, h₁, h⟩ := exists_of_bind_ok h
  obtain ⟨ts, rest, rfl, rfl, hd, hrest⟩ := closing_operand hlast hexpr us hus target s₁ h₁
  obtain ⟨b, s₂, h₂, h⟩ := exists_of_bind_ok h
  rcases cases_of_accept hlast (by decide) h₂ with
    ⟨rfl, q, rest, rfl, hq, rfl⟩ | ⟨rfl, -, rfl⟩
  · obtain ⟨value, s₃, h₃, h⟩ := exists_of_bind_ok h
    obtain ⟨us, rest, rfl, rfl, hvalue, hrest⟩ := hexpr rest hus.right.tail value s₃ h₃
    obtain ⟨rfl, rfl⟩ := eq_of_pure_ok h
    exact ⟨ts ++ q :: us, rest, by simp, rfl, .assign hd hq hvalue, hrest⟩
  · obtain ⟨rfl, rfl⟩ := eq_of_pure_ok h
    exact ⟨ts, rest, rfl, rfl, .expr hd, hrest⟩

end Expressions

/-- An expression that is read is derived. -/
theorem closing_expr (hlast : last.kind = .eof) : ∀ n, Closing last n .expr (Parser.expr n)
  | 0 => by
    intro us hus e s' h
    cases h
  | n + 1 => closing_assignment hlast (closing_expr hlast n)

/-! ## Statements -/

section Statements

variable {expr : Parser Expr} {statement : Parser Stmt} {n : Nat}

/-- The tokens are those of a statement with this tree, which may be an expression without a
semicolon. -/
def IsStatement (ts : List Token) (s : Stmt) (rest : List Token) : Prop :=
  Derives .statement ts s ∨ ∃ e, s = .expr e ∧ Derives .expr ts e ∧ headKind rest ≠ .leftParen

theorem IsStatement.ne_nil {ts rest : List Token} {s : Stmt} (h : IsStatement ts s rest) :
    ts ≠ [] := by
  rcases h with h | ⟨e, -, h, -⟩
  · exact h.ne_nil (by decide)
  · exact h.ne_nil (by decide)

theorem IsStatement.statements {ts us rest : List Token} {s : Stmt} {body : List Stmt}
    (h : IsStatement ts s (us ++ rest)) (hus : Derives .statements us body) :
    Derives .statements (ts ++ us) (s :: body) := by
  rcases h with h | ⟨e, rfl, h, hnext⟩
  · exact .statements h hus
  · refine .bareStatements h hus ?_
    cases us with
    | nil => decide
    | cons => exact hnext

theorem reads_itemsUntil (hlast : last.kind = .eof) {stop : Token.Kind → Bool}
    (hstop : stop .eof = true) (hm : Reads last n statement IsStatement) :
    ∀ k ≤ n, Reads last k (itemsUntil stop statement k) fun ts body rest =>
      Derives .statements ts body ∧ stop (headKind rest) = true := by
  intro k
  induction k with
  | zero =>
    intro _ us hus body s' h
    obtain rfl := hus.eq_nil
    obtain ⟨rfl, rfl⟩ := eq_of_pure_ok h
    exact ⟨[], [], rfl, rfl, .noStatement, hstop⟩
  | succ k ih =>
    intro hk us hus body s' h
    rw [itemsUntil, bind_ok (peekKind_before hlast us)] at h
    split at h
    · next hnext =>
      obtain ⟨rfl, rfl⟩ := eq_of_pure_ok h
      exact ⟨[], us, rfl, rfl, .noStatement, hnext⟩
    · obtain ⟨s, s₁, h₁, h⟩ := exists_of_bind_ok h
      obtain ⟨ts, rest, rfl, rfl, hs⟩ := hm us (hus.mono hk) s s₁ h₁
      obtain ⟨body, s₂, h₂, h⟩ := exists_of_bind_ok h
      obtain ⟨us, rest, rfl, rfl, hbody, hnext⟩ :=
        ih (by omega) rest (hus.right_of_ne_nil hs.ne_nil) body s₂ h₂
      obtain ⟨rfl, rfl⟩ := eq_of_pure_ok h
      exact ⟨ts ++ us, rest, by simp, rfl, hs.statements hbody, hnext⟩

theorem reads_declaration (hlast : last.kind = .eof) (hexpr : Closing last n .expr expr)
    {us : List Token} (hus : Fits (n + 1) us)
    (hkind : headKind us = .letWord ∨ headKind us = .constWord) {s : Stmt} {s' : TokenStream}
    (h : declaration expr (before last us) = .ok s s') :
    ∃ ts rest, us = ts ++ rest ∧ s' = before last rest ∧ Derives .statement ts s := by
  cases us with
  | nil => rcases hkind with hkind | hkind <;> cases hkind
  | cons k us =>
    rw [declaration, bind_ok advance_before_cons] at h
    obtain ⟨name, s₁, h₁, h⟩ := exists_of_bind_ok h
    obtain ⟨x, us, rfl, hx, rfl, rfl⟩ := exists_of_nameOr hlast h₁
    obtain ⟨t, s₂, h₂, h⟩ := exists_of_bind_ok h
    obtain ⟨rfl, rfl⟩ := eq_of_peek_ok h₂
    rw [next_before_kind hlast] at h
    split at h
    · next hc =>
      obtain ⟨c, rest, rfl, hc⟩ := exists_cons_of_headKind (by decide) hc
      simp only [bind_ok advance_before_cons] at h
      split at h
      · cases h
      · next hk =>
        obtain ⟨rfl, rfl⟩ := eq_of_pure_ok h
        rw [decide_eq_false hk]
        exact ⟨[k, x, c], rest, rfl, rfl, .declareOnly (hkind.resolve_right hk) hx hc⟩
    · obtain ⟨_, s₃, h₃, h⟩ := exists_of_bind_ok h
      obtain ⟨q, rest, rfl, hq, rfl⟩ := exists_of_expect hlast (by decide) h₃
      obtain ⟨e, s₄, h₄, h⟩ := exists_of_bind_ok h
      obtain ⟨ts, rest, rfl, rfl, he, -⟩ :=
        hexpr rest hus.tail.rest.rest e s₄ h₄
      obtain ⟨_, s₅, h₅, h⟩ := exists_of_bind_ok h
      obtain ⟨c, rest, rfl, hc, rfl⟩ := exists_of_expect hlast (by decide) h₅
      obtain ⟨rfl, rfl⟩ := eq_of_pure_ok h
      refine ⟨k :: x :: q :: (ts ++ [c]), rest, by simp, rfl, .declare ?_ hx hq he hc⟩
      rw [headKind_cons] at hkind
      rcases hkind with hk | hk <;> simp [hk]

theorem eq_map_name_of_parameters? : ∀ {args : List Expr} {params : List String},
    parameters? args = some params → args = params.map .name
  | [], _, h => by
    cases h
    rfl
  | .name x :: rest, _, h => by
    obtain ⟨params, hparams, rfl⟩ := Option.map_eq_some_iff.1 h
    rw [eq_map_name_of_parameters? hparams]
    rfl

theorem reads_definition (hlast : last.kind = .eof) (hexpr : Closing last n .expr expr)
    (hstatement : Reads last n statement IsStatement) {us : List Token} (hus : Fits (n + 1) us)
    (hkind : headKind us = .fnWord) {s : Stmt} {s' : TokenStream}
    (h : definition expr statement n (before last us) = .ok s s') :
    ∃ ts rest, us = ts ++ rest ∧ s' = before last rest ∧ Derives .statement ts s := by
  obtain ⟨k, us, rfl, hk⟩ := exists_cons_of_headKind (by decide) hkind
  rw [definition, bind_ok advance_before_cons] at h
  obtain ⟨name, s₁, h₁, h⟩ := exists_of_bind_ok h
  obtain ⟨x, us, rfl, hx, rfl, rfl⟩ := exists_of_nameOr hlast h₁
  obtain ⟨t, s₂, h₂, h⟩ := exists_of_bind_ok h
  obtain ⟨rfl, rfl⟩ := eq_of_peek_ok h₂
  obtain ⟨args, s₃, h₃, h⟩ := exists_of_bind_ok h
  obtain ⟨ts, rest, rfl, rfl, l, ps, r, rfl, hl, hargs, hr⟩ :=
    reads_arguments hlast hexpr us hus.rest.rest args s₃ h₃
  cases hparams : parameters? args with
  | none =>
    simp only [hparams] at h
    cases h
  | some params =>
    simp only [hparams] at h
    obtain ⟨_, s₄, h₄, h⟩ := exists_of_bind_ok h
    obtain ⟨b, rest, rfl, hb, rfl⟩ := exists_of_expect hlast (by decide) h₄
    obtain ⟨body, s₅, h₅, h⟩ := exists_of_bind_ok h
    have hbody : Fits n rest := hus.tail.rest.right.rest
    obtain ⟨us, rest, rfl, rfl, hd, -⟩ :=
      reads_itemsUntil hlast (by decide) hstatement n (Nat.le_refl n) rest hbody body s₅ h₅
    obtain ⟨_, s₆, h₆, h⟩ := exists_of_bind_ok h
    obtain ⟨c, rest, rfl, hc, rfl⟩ := exists_of_expect hlast (by decide) h₆
    obtain ⟨rfl, rfl⟩ := eq_of_pure_ok h
    have hwords := hargs.list_word (eq_map_name_of_parameters? hparams)
    exact ⟨k :: x :: l :: (ps ++ r :: b :: (us ++ [c])), rest, by simp, rfl,
      .define hk hx hl hwords hr hb hd hc⟩

theorem reads_expressionStatement (hlast : last.kind = .eof) (hexpr : Closing last n .expr expr) :
    Reads last n (expressionStatement expr) IsStatement := by
  intro us hus s s' h
  rw [expressionStatement] at h
  obtain ⟨e, s₁, h₁, h⟩ := exists_of_bind_ok h
  obtain ⟨ts, rest, rfl, rfl, he, hnext⟩ := hexpr us hus e s₁ h₁
  obtain ⟨b, s₂, h₂, h⟩ := exists_of_bind_ok h
  obtain ⟨rfl, rfl⟩ := eq_of_pure_ok h
  rcases cases_of_accept hlast (by decide) h₂ with
    ⟨-, c, rest, rfl, hc, rfl⟩ | ⟨-, -, rfl⟩
  · exact ⟨ts ++ [c], rest, by simp, rfl, .inl (.exprStatement he hc)⟩
  · exact ⟨ts, rest, rfl, rfl, .inr ⟨e, rfl, he, hnext⟩⟩

end Statements

/-- A statement that is read is derived. -/
theorem reads_statement (hlast : last.kind = .eof) (n : Nat) :
    Reads last n (statement n) IsStatement := by
  induction n with
  | zero => exact reads_expressionStatement hlast (closing_expr hlast 0)
  | succ n ih =>
    intro us hus s s' h
    rw [statement, bind_ok (peekKind_before hlast us)] at h
    have hexpr := closing_expr hlast n
    cases hkind : headKind us with
    | letWord =>
      simp only [hkind] at h
      obtain ⟨ts, rest, hts, hs', hd⟩ := reads_declaration hlast hexpr hus (.inl hkind) h
      exact ⟨ts, rest, hts, hs', .inl hd⟩
    | constWord =>
      simp only [hkind] at h
      obtain ⟨ts, rest, hts, hs', hd⟩ := reads_declaration hlast hexpr hus (.inr hkind) h
      exact ⟨ts, rest, hts, hs', .inl hd⟩
    | fnWord =>
      simp only [hkind] at h
      obtain ⟨ts, rest, hts, hs', hd⟩ := reads_definition hlast hexpr ih hus hkind h
      exact ⟨ts, rest, hts, hs', .inl hd⟩
    | _ =>
      simp only [hkind] at h
      exact reads_expressionStatement hlast (closing_expr hlast (n + 1)) us hus s s' h

theorem reads_program (hlast : last.kind = .eof) {us : List Token} (hus : Fits us.length us)
    {p : Program} {s' : TokenStream} (h : program (before last us) = .ok p s') :
    ∃ ts rest, us = ts ++ rest ∧ s' = before last rest ∧ Derives .program ts p ∧
      headKind rest = .eof := by
  rw [program_before] at h
  obtain ⟨body, s₁, h₁, h⟩ := exists_of_bind_ok h
  obtain ⟨ts, rest, hts, rfl, hbody, hnext⟩ :=
    reads_itemsUntil hlast (by decide) (reads_statement hlast us.length) us.length (Nat.le_refl _)
      us hus body s₁ h₁
  obtain ⟨rfl, rfl⟩ := eq_of_pure_ok h
  exact ⟨ts, rest, hts, rfl, .program hbody, of_decide_eq_true hnext⟩

end Parser

open Grammar TokenStream ScopeScript.Parser in
/-- Tokens that are read as a program are a phrase of that program. -/
theorem Program.derives_of_ofTokens {last : Token} {us : List Token} {p : Program}
    (hlast : last.kind = .eof) (hkind : ∀ t ∈ us, t.kind ≠ .eof)
    (hdigits : ∀ t ∈ us, t.kind = .number → Number.IsDigitRun t.text)
    (h : Program.ofTokens (us ++ [last]) = .ok p) : Derives .program us p := by
  rw [Program.ofTokens, ofList_append hlast, TokenStream.program] at h
  split at h
  · next q s hq =>
    obtain rfl := Except.ok.inj h
    obtain ⟨ts, rest, rfl, -, hd, hrest⟩ := reads_program hlast ⟨Nat.le_refl _, hdigits⟩ hq
    cases rest with
    | nil => rwa [List.append_nil]
    | cons t rest => exact absurd hrest (hkind t (by simp))
  · cases h

end ScopeScript
