import ScopeScript.Proofs.Syntax.Reading

/-!
# What is derived is read

On a phrase of a rule, a parser of the rule reads the phrase and nothing behind it, and gives the
tree of the phrase, if the tokens behind it do not go on with it (`Rule.goesOn`).
-/

namespace ScopeScript

namespace Grammar

/-- The kinds of tokens that would be read as a part of a phrase of the rule if they stood behind
it. -/
def Rule.goesOn : Rule → List Token.Kind
  | suffixes | chain => [.dot, .leftBracket, .leftParen]
  | productTail | product => [.star, .slash, .percent, .dot, .leftBracket, .leftParen]
  | sumTail | sum | operand =>
    [.plus, .minus, .star, .slash, .percent, .dot, .leftBracket, .leftParen]
  | expr => [.equal, .plus, .minus, .star, .slash, .percent, .dot, .leftBracket, .leftParen]
  | entry =>
    [.colon, .equal, .plus, .minus, .star, .slash, .percent, .dot, .leftBracket, .leftParen]
  | separated item | list item => .comma :: item.goesOn
  | program | statements | statement | suffix | primary | word => []

theorem not_mem_goesOn_of_ofProductKind? {kind : Token.Kind} {o : Operator}
    (h : Operator.ofProductKind? kind = some o) : kind ∉ Rule.chain.goesOn := by
  cases kind <;> cases h <;> decide

theorem not_mem_goesOn_of_ofSumKind? {kind : Token.Kind} {o : Operator}
    (h : Operator.ofSumKind? kind = some o) : kind ∉ Rule.product.goesOn := by
  cases kind <;> cases h <;> decide

theorem Derives.productTail_cases {ts : List Token} {ops : List (Operator × Expr)}
    (h : Derives .productTail ts ops) :
    ts = [] ∧ ops = [] ∨ ∃ t us vs o e rest, ts = t :: (us ++ vs) ∧ ops = (o, e) :: rest ∧
      Operator.ofProductKind? t.kind = some o ∧ Derives .chain us e ∧
      Derives .productTail vs rest := by
  cases h with
  | productEnd => exact .inl ⟨rfl, rfl⟩
  | productStep ht h hops => exact .inr ⟨_, _, _, _, _, _, rfl, rfl, ht, h, hops⟩

theorem Derives.sumTail_cases {ts : List Token} {ops : List (Operator × Expr)}
    (h : Derives .sumTail ts ops) :
    ts = [] ∧ ops = [] ∨ ∃ t us vs o e rest, ts = t :: (us ++ vs) ∧ ops = (o, e) :: rest ∧
      Operator.ofSumKind? t.kind = some o ∧ Derives .product us e ∧ Derives .sumTail vs rest := by
  cases h with
  | sumEnd => exact .inl ⟨rfl, rfl⟩
  | sumStep ht h hops => exact .inr ⟨_, _, _, _, _, _, rfl, rfl, ht, h, hops⟩

theorem Derives.statements_headKind {us : List Token} {body : List Stmt}
    (h : Derives .statements us body) : us = [] ∨ headKind us ∈ Rule.statement.first := by
  cases h with
  | noStatement => exact .inl rfl
  | statements h =>
    exact .inr (mem_headKind_append (headKind_mem_first h (by decide)) (by decide) _)
  | bareStatements h =>
    refine .inr (mem_headKind_append ?_ (by decide) _)
    exact List.mem_append_right [.letWord, .constWord, .fnWord] (headKind_mem_first h (by decide))

end Grammar

namespace Parser

open Grammar TokenStream

variable {last : Token}

/-- On a phrase of the rule in at most `n` tokens, the parser reads the phrase and stops. -/
def Complete (last : Token) (n : Nat) (r : Rule) (m : Parser r.Tree) : Prop :=
  ∀ ts rest x, (ts ++ rest).length ≤ n → Derives r ts x → headKind rest ∉ r.goesOn →
    m (before last (ts ++ rest)) = .ok x (before last rest)

theorem Complete.mono {k n : Nat} {r : Rule} {m : Parser r.Tree} (h : Complete last n r m)
    (hkn : k ≤ n) : Complete last k r m :=
  fun ts rest x hlen => h ts rest x (Nat.le_trans hlen hkn)

section Lists

variable {item : Rule} {m : Parser item.Tree} {n : Nat}

theorem complete_commaSeparated (hlast : last.kind = .eof) (hm : Complete last n item m)
    (hcomma : .comma ∉ item.goesOn) :
    ∀ k ≤ n, Complete last k (.separated item) (commaSeparated m k) := by
  intro k
  induction k with
  | zero =>
    intro hk ts rest xs hlen h hnext
    rw [commaSeparated]
    cases h with
    | one h =>
      rw [bind_ok (hm ts rest _ (Nat.le_trans hlen hk) h fun hmem =>
        hnext (List.mem_cons_of_mem _ hmem))]
      rfl
    | more => simp at hlen
  | succ k ih =>
    intro hk ts rest xs hlen h hnext
    rw [commaSeparated]
    cases h with
    | one h =>
      rw [bind_ok (hm ts rest _ (Nat.le_trans hlen hk) h fun hmem =>
        hnext (List.mem_cons_of_mem _ hmem))]
      have hne : headKind rest ≠ .comma := fun hkind => hnext (hkind ▸ List.mem_cons_self)
      rw [bind_ok (accept_before_of_ne hlast hne)]
      rfl
    | @more _ ts us c x xs h hc hrest =>
      rw [List.append_assoc, List.cons_append] at hlen ⊢
      rw [bind_ok (hm ts _ x (Nat.le_trans hlen hk) h (by rwa [headKind_cons, hc])),
        bind_ok (accept_before_cons hlast hc)]
      have hlen' : (us ++ rest).length ≤ k := by
        rw [List.length_append, List.length_cons] at hlen
        omega
      simp only [if_true, bind_ok (ih (by omega) us rest xs hlen' hrest hnext)]
      rfl

theorem commaSeparatedUntil_before_append (hlast : last.kind = .eof) {close : Token.Kind}
    (hm : Complete last n item m) (hitem : .eof ∉ item.first) (hcomma : .comma ∉ item.goesOn)
    (hfirst : close ∉ item.first) (hclose : close ∉ (Rule.separated item).goesOn)
    {ts rest : List Token} {r : Token} {xs : List item.Tree}
    (hlen : (ts ++ r :: rest).length ≤ n) (h : Derives (.list item) ts xs) (hr : r.kind = close) :
    commaSeparatedUntil close m n (before last (ts ++ r :: rest)) = .ok xs (before last rest) := by
  rw [commaSeparatedUntil_before hlast]
  cases h with
  | emptyList =>
    rw [List.nil_append, if_pos (by rw [headKind_cons, hr])]
    rw [bind_ok (m := pure []) rfl, bind_ok (expect_before_cons hlast hr)]
    rfl
  | list h =>
    have hhead : headKind (ts ++ r :: rest) ∈ item.first :=
      mem_headKind_append (headKind_mem_first h hitem) hitem _
    have hne : headKind (ts ++ r :: rest) ≠ close := fun hkind => hfirst (hkind ▸ hhead)
    have hitems := complete_commaSeparated hlast hm hcomma n (Nat.le_refl n) ts (r :: rest) xs
      hlen h (by rwa [headKind_cons, hr])
    rw [if_neg hne, bind_ok hitems, bind_ok (expect_before_cons hlast hr)]
    rfl

end Lists

/-! ## Expressions -/

section Expressions

variable {expr : Parser Expr} {n : Nat}

theorem complete_primary (hlast : last.kind = .eof) (hexpr : Complete last n .expr expr) :
    Complete last (n + 1) .primary (primary expr) := by
  intro ts rest e hlen h _
  rw [primary, bind_ok (peekKind_before hlast _)]
  cases h with
  | name hx =>
    simp only [List.cons_append, List.nil_append, headKind_cons, hx, bind_ok advance_before_cons]
    rfl
  | @number t hdigits ht =>
    simp only [List.cons_append, List.nil_append, headKind_cons, ht, bind_ok advance_before_cons,
      Number.parse?_eq_some_of_isDigitRun hdigits]
    rfl
  | @parens l r ts e hl h hr =>
    have hlen' : (ts ++ r :: rest).length ≤ n := by
      simp only [List.length_append, List.length_cons, List.length_nil] at hlen ⊢
      omega
    simp only [List.cons_append, List.append_assoc, List.nil_append, headKind_cons, hl,
      bind_ok advance_before_cons]
    rw [bind_ok (hexpr ts (r :: rest) e hlen' h (by rw [headKind_cons, hr]; decide)),
      bind_ok (expect_before_cons hlast hr)]
    rfl

theorem arguments_before_append (hlast : last.kind = .eof) (hexpr : Complete last n .expr expr)
    {l r : Token} {ts rest : List Token} {args : List Expr}
    (hlen : (ts ++ r :: rest).length ≤ n) (hl : l.kind = .leftParen)
    (h : Derives (.list .expr) ts args) (hr : r.kind = .rightParen) :
    arguments expr n (before last (l :: (ts ++ r :: rest))) = .ok args (before last rest) := by
  rw [arguments, bind_ok (expect_before_cons hlast hl)]
  exact commaSeparatedUntil_before_append hlast hexpr (by decide) (by decide) (by decide)
    (by decide) hlen h hr

theorem propertyName_before_append (hlast : last.kind = .eof) (hexpr : Complete last n .expr expr)
    {ts rest : List Token} {x : String} (hlen : (ts ++ rest).length ≤ n + 1)
    (h : Derives .word ts x) :
    propertyName (primary expr) (before last (ts ++ rest)) =
      .ok (.name x) (before last rest) := by
  have hprimary := Derives.primary_of_word (Nat.le_refl _) h
  rw [propertyName, bind_ok (m := peek) rfl,
    bind_ok (complete_primary hlast hexpr ts rest _ hlen hprimary (List.not_mem_nil))]
  rfl

theorem suffixes_before_append (hlast : last.kind = .eof) (hexpr : Complete last n .expr expr) :
    ∀ k ≤ n + 1, ∀ e ts rest ss, (ts ++ rest).length ≤ k → Derives .suffixes ts ss →
      headKind rest ∉ Rule.suffixes.goesOn →
      suffixes expr k e (before last (ts ++ rest)) =
        .ok (applySuffixes e ss) (before last rest) := by
  intro k
  induction k with
  | zero =>
    intro _ e ts rest ss hlen h hnext
    cases h with
    | noSuffix => rfl
    | suffixes h =>
      have := List.length_pos_iff.2 (h.ne_nil (by decide))
      simp only [List.length_append] at hlen
      omega
  | succ k ih =>
    intro hk e ts rest ss hlen h hnext
    rw [suffixes, bind_ok (peekKind_before hlast _)]
    cases h with
    | noSuffix =>
      rw [List.nil_append]
      cases hkind : headKind rest with
      | dot | leftBracket | leftParen => exact absurd (hkind ▸ by decide) hnext
      | _ => rfl
    | @suffixes ts us s ss h hss =>
      rw [List.append_assoc] at hlen ⊢
      cases h with
      | @dot d ts x hd h =>
        simp only [List.cons_append, List.length_cons, Nat.add_le_add_iff_right] at hlen
        have hlen' : (us ++ rest).length ≤ k := by
          rw [List.length_append] at hlen
          omega
        simp only [List.cons_append, headKind_cons, hd, bind_ok advance_before_cons]
        rw [bind_ok (propertyName_before_append hlast hexpr (by omega) h),
          ih (by omega) _ us rest ss hlen' hss hnext]
        rfl
      | @index l r ts key hl h hr =>
        simp only [List.cons_append, List.append_assoc, List.nil_append, List.length_cons,
          Nat.add_le_add_iff_right] at hlen
        have hlen' : (us ++ rest).length ≤ k := by
          rw [List.length_append, List.length_cons] at hlen
          omega
        simp only [List.cons_append, List.append_assoc, List.nil_append, headKind_cons, hl,
          bind_ok advance_before_cons]
        rw [bind_ok (hexpr ts _ key (by omega) h (by rw [headKind_cons, hr]; decide)),
          bind_ok (expect_before_cons hlast hr), ih (by omega) _ us rest ss hlen' hss hnext]
        rfl
      | @call l r ts args hl h hr =>
        simp only [List.cons_append, List.append_assoc, List.nil_append, List.length_cons,
          Nat.add_le_add_iff_right] at hlen
        have hlen' : (us ++ rest).length ≤ k := by
          rw [List.length_append, List.length_cons] at hlen
          omega
        simp only [List.cons_append, List.append_assoc, List.nil_append, headKind_cons, hl]
        rw [bind_ok (arguments_before_append hlast (hexpr.mono (by omega)) hlen hl h hr),
          ih (by omega) _ us rest ss hlen' hss hnext]
        rfl

theorem complete_chain (hlast : last.kind = .eof) (hexpr : Complete last n .expr expr) :
    Complete last (n + 1) .chain (chain expr (n + 1)) := by
  intro ts rest e hlen h hnext
  cases h with
  | @chain ts us e ss h hss =>
    rw [List.append_assoc] at hlen ⊢
    have hlen' : (us ++ rest).length ≤ n + 1 := by
      rw [List.length_append] at hlen
      omega
    rw [chain, bind_ok (complete_primary hlast hexpr ts _ e hlen h List.not_mem_nil)]
    exact suffixes_before_append hlast hexpr (n + 1) (Nat.le_refl _) e us rest ss hlen' hss hnext

/-- Operations are read to their end.  The operands are given by `P` and the operations by `T`; no
operator goes on with an operand. -/
theorem operations_before_append (hlast : last.kind = .eof)
    {operator? : Token.Kind → Option Operator} {operand : Parser Expr} {goesOn : List Token.Kind}
    (hgoesOn : ∀ kind o, operator? kind = some o → kind ∉ goesOn) {P : List Token → Expr → Prop}
    {T : List Token → List (Operator × Expr) → Prop}
    (hcases : ∀ ts ops, T ts ops → ts = [] ∧ ops = [] ∨ ∃ t us vs o e rest,
      ts = t :: (us ++ vs) ∧ ops = (o, e) :: rest ∧ operator? t.kind = some o ∧ P us e ∧ T vs rest)
    (hm : ∀ ts rest e, (ts ++ rest).length ≤ n → P ts e → headKind rest ∉ goesOn →
      operand (before last (ts ++ rest)) = .ok e (before last rest)) :
    ∀ k ≤ n, ∀ lhs ts rest ops, (ts ++ rest).length ≤ k → T ts ops → headKind rest ∉ goesOn →
      operator? (headKind rest) = none →
      operations operator? operand k lhs (before last (ts ++ rest)) =
        .ok (applyOperations lhs ops) (before last rest) := by
  intro k
  induction k with
  | zero =>
    intro _ lhs ts rest ops hlen h hnext hend
    rcases hcases ts ops h with ⟨rfl, rfl⟩ | ⟨t, us, vs, o, e, ops, rfl, -⟩
    · rfl
    · simp at hlen
  | succ k ih =>
    intro hk lhs ts rest ops hlen h hnext hend
    rw [operations, bind_ok (peekKind_before hlast _)]
    rcases hcases ts ops h with ⟨rfl, rfl⟩ | ⟨t, us, vs, o, e, ops, rfl, rfl, ho, he, hops⟩
    · simp only [List.nil_append, hend]
      rfl
    · simp only [List.cons_append, List.append_assoc, List.length_cons,
        Nat.add_le_add_iff_right] at hlen
      have hvs : headKind (vs ++ rest) ∉ goesOn := by
        rcases hcases vs ops hops with ⟨rfl, rfl⟩ | ⟨t, us, vs, o, e, ops, rfl, -, ho, -⟩
        · exact hnext
        · exact hgoesOn t.kind o ho
      have hlen' : (vs ++ rest).length ≤ k := by
        rw [List.length_append] at hlen
        omega
      simp only [List.cons_append, List.append_assoc, headKind_cons, ho,
        bind_ok advance_before_cons]
      rw [bind_ok (hm us _ e (by omega) he hvs), ih (by omega) _ vs rest ops hlen' hops hnext hend]
      rfl

theorem complete_product (hlast : last.kind = .eof) (hexpr : Complete last n .expr expr) :
    Complete last (n + 1) .product (product expr (n + 1)) := by
  intro ts rest e hlen h hnext
  have hends : headKind rest ∉ Rule.chain.goesOn ∧
      Operator.ofProductKind? (headKind rest) = none := by
    revert hnext
    cases headKind rest <;> decide
  cases h with
  | @product ts us e ops h hops =>
    rw [List.append_assoc] at hlen ⊢
    have hlen' : (us ++ rest).length ≤ n + 1 := by
      rw [List.length_append] at hlen
      omega
    have hus : headKind (us ++ rest) ∉ Rule.chain.goesOn := by
      cases hops with
      | productEnd => exact hends.1
      | productStep ht => exact not_mem_goesOn_of_ofProductKind? ht
    have hchain := complete_chain hlast hexpr
    rw [product, bind_ok (hchain ts _ e hlen h hus)]
    exact operations_before_append hlast (fun _ _ => not_mem_goesOn_of_ofProductKind?)
      (fun _ _ => Derives.productTail_cases) hchain (n + 1) (Nat.le_refl _) e us rest ops hlen' hops
      hends.1 hends.2

theorem complete_sum (hlast : last.kind = .eof) (hexpr : Complete last n .expr expr) :
    Complete last (n + 1) .sum (sum expr (n + 1)) := by
  intro ts rest e hlen h hnext
  have hends : headKind rest ∉ Rule.product.goesOn ∧
      Operator.ofSumKind? (headKind rest) = none := by
    revert hnext
    cases headKind rest <;> decide
  cases h with
  | @sum ts us e ops h hops =>
    rw [List.append_assoc] at hlen ⊢
    have hlen' : (us ++ rest).length ≤ n + 1 := by
      rw [List.length_append] at hlen
      omega
    have hus : headKind (us ++ rest) ∉ Rule.product.goesOn := by
      cases hops with
      | sumEnd => exact hends.1
      | sumStep ht => exact not_mem_goesOn_of_ofSumKind? ht
    have hproduct := complete_product hlast hexpr
    rw [sum, bind_ok (hproduct ts _ e hlen h hus)]
    exact operations_before_append hlast (fun _ _ => not_mem_goesOn_of_ofSumKind?)
      (fun _ _ => Derives.sumTail_cases) hproduct (n + 1) (Nat.le_refl _) e us rest ops hlen' hops
      hends.1 hends.2

theorem complete_property (hlast : last.kind = .eof) (hexpr : Complete last n .expr expr) :
    Complete last (n + 1) .entry (property expr) := by
  intro ts rest p hlen h hnext
  rw [property]
  cases h with
  | shorthand hx =>
    have hne : headKind rest ≠ .colon := fun hkind => hnext (hkind ▸ by decide)
    rw [List.cons_append, bind_ok (nameOr_before_cons hlast hx), List.nil_append,
      bind_ok (accept_before_of_ne hlast hne)]
    rfl
  | @keyed x c ts e hx hc h =>
    simp only [List.cons_append, List.length_cons] at hlen
    have hends : headKind rest ∉ Rule.expr.goesOn := fun hmem =>
      hnext (List.mem_cons_of_mem _ hmem)
    rw [List.cons_append, bind_ok (nameOr_before_cons hlast hx), List.cons_append,
      bind_ok (accept_before_cons hlast hc)]
    simp only [if_true, bind_ok (hexpr ts rest e (by omega) h hends)]
    rfl

theorem complete_operand (hlast : last.kind = .eof) (hexpr : Complete last n .expr expr) :
    Complete last (n + 1) .operand (operand expr (n + 1)) := by
  intro ts rest e hlen h hnext
  rw [operand]
  cases h with
  | @object ts us l r entries ss hl h hr hss =>
    simp only [List.cons_append, List.append_assoc, List.length_cons] at hlen ⊢
    have hends : headKind rest ∉ Rule.suffixes.goesOn := by
      revert hnext
      cases headKind rest <;> decide
    have hlen' : (us ++ rest).length ≤ n + 1 := by
      rw [List.length_append, List.length_cons] at hlen
      omega
    have hentries : commaSeparatedUntil .rightCurly (property expr) (n + 1)
        (before last (ts ++ r :: (us ++ rest))) = .ok entries (before last (us ++ rest)) :=
      commaSeparatedUntil_before_append hlast (complete_property hlast hexpr) (by decide)
        (by decide) (by decide) (by decide) (Nat.le_of_succ_le hlen) h hr
    rw [bind_ok (accept_before_cons hlast hl)]
    simp only [if_true]
    rw [bind_ok hentries]
    exact suffixes_before_append hlast hexpr (n + 1) (Nat.le_refl _) _ us rest ss hlen' hss hends
  | operand h =>
    have hhead := mem_headKind_append (headKind_mem_first h (by decide)) (by decide) rest
    have hne : headKind (ts ++ rest) ≠ .leftCurly := fun hkind =>
      absurd (hkind ▸ hhead) (by decide)
    rw [bind_ok (accept_before_of_ne hlast hne)]
    exact complete_sum hlast hexpr ts rest e hlen h hnext

theorem complete_assignment (hlast : last.kind = .eof) (hexpr : Complete last n .expr expr) :
    Complete last (n + 1) .expr (assignment expr (n + 1)) := by
  intro ts rest e hlen h hnext
  rw [assignment]
  cases h with
  | expr h =>
    have hends : headKind rest ∉ Rule.operand.goesOn := fun hmem =>
      hnext (List.mem_cons_of_mem _ hmem)
    have hne : headKind rest ≠ .equal := fun hkind => hnext (hkind ▸ List.mem_cons_self)
    rw [bind_ok (complete_operand hlast hexpr ts rest e hlen h hends),
      bind_ok (accept_before_of_ne hlast hne)]
    rfl
  | @assign ts us q target value h hq hvalue =>
    rw [List.append_assoc, List.cons_append] at hlen ⊢
    have hlen' : (us ++ rest).length ≤ n := by
      rw [List.length_append, List.length_cons] at hlen
      omega
    have htarget := complete_operand hlast hexpr ts (q :: (us ++ rest)) target hlen h
      (by rw [headKind_cons, hq]; decide)
    rw [bind_ok htarget, bind_ok (accept_before_cons hlast hq)]
    simp only [if_true, bind_ok (hexpr us rest value hlen' hvalue hnext)]
    rfl

end Expressions

/-- An expression that is derived is read. -/
theorem complete_expr (hlast : last.kind = .eof) : ∀ n, Complete last n .expr (expr n)
  | 0 => by
    intro ts rest e hlen h
    have := List.length_pos_iff.2 (h.ne_nil (by decide))
    rw [List.length_append] at hlen
    omega
  | n + 1 => complete_assignment hlast (complete_expr hlast n)

/-! ## Statements -/

section Statements

variable {expr : Parser Expr} {statement : Parser Stmt} {n : Nat}

/-- On a statement, followed by more of them or by the end of a list of statements, the parser reads
the statement. -/
structure CompleteStatement (last : Token) (n : Nat) (m : Parser Stmt) : Prop where
  closed : Complete last n .statement m
  bare : ∀ ts rest e, (ts ++ rest).length ≤ n → Derives .expr ts e →
    headKind rest ∉ Rule.expr.goesOn → headKind rest ≠ .semicolon →
    m (before last (ts ++ rest)) = .ok (.expr e) (before last rest)

theorem itemsUntil_before_append (hlast : last.kind = .eof) {stop : Token.Kind → Bool}
    (hstop : ∀ kind, stop kind = true → kind = .rightCurly ∨ kind = .eof)
    (hm : CompleteStatement last n statement) :
    ∀ k ≤ n, ∀ ts rest body, (ts ++ rest).length ≤ k → Derives .statements ts body →
      stop (headKind rest) = true →
      itemsUntil stop statement k (before last (ts ++ rest)) = .ok body (before last rest) := by
  intro k
  induction k with
  | zero =>
    intro _ ts rest body hlen h hend
    have hts : ts = [] := by
      rw [List.length_append] at hlen
      exact List.length_eq_zero_iff.1 (by omega)
    cases h with
    | noStatement => rfl
    | statements h => exact absurd (List.append_eq_nil_iff.1 hts).1 (h.ne_nil (by decide))
    | bareStatements h => exact absurd (List.append_eq_nil_iff.1 hts).1 (h.ne_nil (by decide))
  | succ k ih =>
    intro hk ts rest body hlen h hend
    rw [itemsUntil, bind_ok (peekKind_before hlast _)]
    have hgo : headKind ts ∈ Rule.statement.first → stop (headKind (ts ++ rest)) ≠ true := by
      intro hhead hs
      have hmem := mem_headKind_append hhead (by decide) rest
      rcases hstop _ hs with hkind | hkind <;> exact absurd (hkind ▸ hmem) (by decide)
    have hne := h.statements_headKind
    cases h with
    | noStatement =>
      rw [List.nil_append, if_pos hend]
      rfl
    | @statements ts us s body h hbody =>
      have hts := List.length_pos_iff.2 (h.ne_nil (by decide))
      rw [if_neg (hgo (hne.resolve_left fun hnil =>
        h.ne_nil (by decide) (List.append_eq_nil_iff.1 hnil).1))]
      rw [List.append_assoc] at hlen ⊢
      have hlen' : (us ++ rest).length ≤ k := by
        rw [List.length_append] at hlen
        omega
      rw [bind_ok (hm.closed ts _ s (Nat.le_trans hlen hk) h List.not_mem_nil),
        bind_ok (ih (by omega) us rest body hlen' hbody hend)]
      rfl
    | @bareStatements ts us e body h hbody hnext =>
      have hts := List.length_pos_iff.2 (h.ne_nil (by decide))
      rw [if_neg (hgo (hne.resolve_left fun hnil =>
        h.ne_nil (by decide) (List.append_eq_nil_iff.1 hnil).1))]
      rw [List.append_assoc] at hlen ⊢
      have hlen' : (us ++ rest).length ≤ k := by
        rw [List.length_append] at hlen
        omega
      have hfollow : headKind (us ++ rest) ∉ Rule.expr.goesOn ∧
          headKind (us ++ rest) ≠ .semicolon := by
        rcases hbody.statements_headKind with rfl | hhead
        · rcases hstop _ hend with hkind | hkind <;> rw [List.nil_append, hkind] <;> decide
        · rw [headKind_append fun heof => absurd (heof ▸ hhead) (by decide)]
          revert hhead hnext
          cases headKind us <;> decide
      rw [bind_ok (hm.bare ts _ e (Nat.le_trans hlen hk) h hfollow.1 hfollow.2),
        bind_ok (ih (by omega) us rest body hlen' hbody hend)]
      rfl

theorem declaration_before_cons (hlast : last.kind = .eof) {k x c : Token} {rest : List Token}
    (hk : k.kind = .letWord) (hx : x.kind = .name) (hc : c.kind = .semicolon) :
    declaration expr (before last (k :: x :: c :: rest)) =
      .ok (.declare false x.text none) (before last rest) := by
  rw [declaration, bind_ok advance_before_cons, bind_ok (nameOr_before_cons hlast hx),
    bind_ok (m := peek) rfl, next_before_kind hlast, headKind_cons, if_pos hc,
    bind_ok advance_before_cons, hk]
  rfl

theorem declaration_before_append (hlast : last.kind = .eof) (hexpr : Complete last n .expr expr)
    {k x q c : Token} {ts rest : List Token} {e : Expr} {constant : Bool}
    (hlen : (ts ++ c :: rest).length ≤ n)
    (hk : k.kind = if constant then .constWord else .letWord) (hx : x.kind = .name)
    (hq : q.kind = .equal) (h : Derives .expr ts e) (hc : c.kind = .semicolon) :
    declaration expr (before last (k :: x :: q :: (ts ++ c :: rest))) =
      .ok (.declare constant x.text (some e)) (before last rest) := by
  have hconst : decide (k.kind = .constWord) = constant := by
    rw [hk]
    cases constant <;> rfl
  have hne : headKind (q :: (ts ++ c :: rest)) ≠ .semicolon := by
    rw [headKind_cons, hq]
    decide
  rw [declaration, bind_ok advance_before_cons, bind_ok (nameOr_before_cons hlast hx),
    bind_ok (m := peek) rfl, next_before_kind hlast, if_neg hne,
    bind_ok (expect_before_cons hlast hq),
    bind_ok (hexpr ts _ e hlen h (by rw [headKind_cons, hc]; decide)),
    bind_ok (expect_before_cons hlast hc), hconst]
  rfl

theorem parameters?_map_name (xs : List String) : parameters? (xs.map .name) = some xs := by
  induction xs with
  | nil => rfl
  | cons x xs ih => rw [List.map_cons, parameters?, ih, Option.map_some]

theorem definition_before_append (hlast : last.kind = .eof) (hexpr : Complete last n .expr expr)
    (hm : CompleteStatement last n statement) {k x l r b c : Token} {ts us rest : List Token}
    {params : List String} {body : List Stmt}
    (hlen : (ts ++ r :: b :: (us ++ c :: rest)).length ≤ n) (hx : x.kind = .name)
    (hl : l.kind = .leftParen) (hparams : Derives (.list .word) ts params)
    (hr : r.kind = .rightParen) (hb : b.kind = .leftCurly) (hbody : Derives .statements us body)
    (hc : c.kind = .rightCurly) :
    definition expr statement n
        (before last (k :: x :: l :: (ts ++ r :: b :: (us ++ c :: rest)))) =
      .ok (.define x.text params body) (before last rest) := by
  have hlen' : (us ++ c :: rest).length ≤ n := by
    rw [List.length_append, List.length_cons, List.length_cons] at hlen
    omega
  have hargs : arguments expr n (before last (l :: (ts ++ r :: b :: (us ++ c :: rest)))) =
      .ok (params.map .name) (before last (b :: (us ++ c :: rest))) :=
    arguments_before_append hlast hexpr hlen hl hparams.list_expr hr
  rw [definition, bind_ok advance_before_cons, bind_ok (nameOr_before_cons hlast hx),
    bind_ok (m := peek) rfl, bind_ok hargs, parameters?_map_name]
  simp only [bind_ok (expect_before_cons hlast hb)]
  rw [bind_ok (itemsUntil_before_append hlast (by simp) hm n (Nat.le_refl n) us _ body hlen' hbody
    (by rw [headKind_cons, hc]; rfl)), bind_ok (expect_before_cons hlast hc)]
  rfl

theorem expressionStatement_before_append (hlast : last.kind = .eof)
    (hexpr : Complete last n .expr expr) {ts rest : List Token} {e : Expr}
    (hlen : (ts ++ rest).length ≤ n) (h : Derives .expr ts e)
    (hnext : headKind rest ∉ Rule.expr.goesOn) (hne : headKind rest ≠ .semicolon) :
    expressionStatement expr (before last (ts ++ rest)) = .ok (.expr e) (before last rest) := by
  rw [expressionStatement, bind_ok (hexpr ts rest e hlen h hnext),
    bind_ok (accept_before_of_ne hlast hne)]
  rfl

theorem expressionStatement_before_semicolon (hlast : last.kind = .eof)
    (hexpr : Complete last n .expr expr) {ts rest : List Token} {c : Token} {e : Expr}
    (hlen : (ts ++ c :: rest).length ≤ n) (h : Derives .expr ts e) (hc : c.kind = .semicolon) :
    expressionStatement expr (before last (ts ++ c :: rest)) =
      .ok (.expr e) (before last rest) := by
  rw [expressionStatement, bind_ok (hexpr ts _ e hlen h (by rw [headKind_cons, hc]; decide)),
    bind_ok (accept_before_cons hlast hc)]
  rfl

end Statements

theorem statement_before_append (hlast : last.kind = .eof) (n : Nat) {ts : List Token} {e : Expr}
    (h : Derives .expr ts e) (rest : List Token) :
    statement (n + 1) (before last (ts ++ rest)) =
      expressionStatement (expr (n + 1)) (before last (ts ++ rest)) := by
  have hhead := mem_headKind_append (headKind_mem_first h (by decide)) (by decide) rest
  rw [statement, bind_ok (peekKind_before hlast _)]
  cases hkind : headKind (ts ++ rest) with
  | letWord | constWord | fnWord => exact absurd (hkind ▸ hhead) (by decide)
  | _ => rfl

/-- A statement that is derived is read. -/
theorem complete_statement (hlast : last.kind = .eof) (n : Nat) :
    CompleteStatement last n (statement n) := by
  induction n with
  | zero =>
    refine ⟨fun ts rest s hlen h _ => ?_, fun ts rest e hlen h hnext hne => ?_⟩
    · have := List.length_pos_iff.2 (h.ne_nil (by decide))
      rw [List.length_append] at hlen
      omega
    · exact expressionStatement_before_append hlast (complete_expr hlast 0) hlen h hnext hne
  | succ n ih =>
    have hexpr := complete_expr hlast n
    have hexpr' := complete_expr hlast (n + 1)
    refine ⟨fun ts rest s hlen h _ => ?_, fun ts rest e hlen h hnext hne => ?_⟩
    · cases h with
      | declareOnly hk hx hc =>
        rw [statement, bind_ok (peekKind_before hlast _)]
        simp only [List.cons_append, List.nil_append, headKind_cons, hk]
        exact declaration_before_cons hlast hk hx hc
      | @declare k x q c ts e constant hk hx hq h hc =>
        simp only [List.cons_append, List.append_assoc, List.nil_append, List.length_cons,
          Nat.add_le_add_iff_right] at hlen
        have hlen' : (ts ++ c :: rest).length ≤ n := by omega
        rw [statement, bind_ok (peekKind_before hlast _)]
        simp only [List.cons_append, List.append_assoc, List.nil_append, headKind_cons]
        have hrun := declaration_before_append hlast hexpr hlen' hk hx hq h hc
        cases constant <;> simp only [hk] <;> exact hrun
      | @define k x l r b c ts us params body hk hx hl hparams hr hb hbody hc =>
        simp only [List.cons_append, List.append_assoc, List.nil_append, List.length_cons,
          Nat.add_le_add_iff_right] at hlen
        rw [statement, bind_ok (peekKind_before hlast _)]
        simp only [List.cons_append, List.append_assoc, List.nil_append, headKind_cons, hk]
        exact definition_before_append hlast hexpr ih (by omega) hx hl hparams hr hb hbody hc
      | @exprStatement ts c e h hc =>
        rw [List.append_assoc] at hlen ⊢
        rw [statement_before_append hlast n h]
        exact expressionStatement_before_semicolon hlast hexpr' hlen h hc
    · rw [statement_before_append hlast n h]
      exact expressionStatement_before_append hlast hexpr' hlen h hnext hne

end Parser

open Grammar TokenStream ScopeScript.Parser in
/-- A phrase of a program is read as that program. -/
theorem Program.ofTokens_of_derives {last : Token} {us : List Token} {p : Program}
    (hlast : last.kind = .eof) (h : Derives .program us p) :
    Program.ofTokens (us ++ [last]) = .ok p := by
  cases h with
  | @program us body h =>
    have hstop : ∀ kind : Token.Kind, decide (kind = .eof) = true →
        kind = .rightCurly ∨ kind = .eof := fun _ hkind => .inr (of_decide_eq_true hkind)
    have hbody := itemsUntil_before_append hlast hstop
      (complete_statement hlast us.length) us.length (Nat.le_refl _) us [] body (by simp) h rfl
    rw [List.append_nil] at hbody
    have hrun : Parser.program (before last us) = .ok ⟨body⟩ (before last []) := by
      rw [program_before, bind_ok hbody]
      rfl
    rw [Program.ofTokens, ofList_append hlast, TokenStream.program, hrun]

end ScopeScript
