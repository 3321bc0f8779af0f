import ScopeScript.Syntax.Grammar
import ScopeScript.Proofs.Number.DigitRun

/-!
# The grammar as a relation

`Derives r ts x` says that the rule `r` of the grammar derives the tokens `ts` with the tree `x`.
The relation knows nothing of reading from left to right: the parts of a phrase may be cut apart in
any way that the rules allow.  One condition looks beyond a phrase: a statement that is an
expression without a semicolon is not followed by an opening parenthesis.

What a phrase starts with is read off the rule (`headKind_mem_first`).
-/

namespace ScopeScript

namespace Grammar

/-- A rule of the grammar. -/
inductive Rule where
  | program
  | statements
  /-- A declaration, a definition, or an expression with a semicolon. -/
  | statement
  | expr
  | operand
  | entry
  | sum
  | sumTail
  | product
  | productTail
  | chain
  | suffixes
  | suffix
  | primary
  /-- A name, in any number of parentheses. -/
  | word
  /-- `item (',' item)*` -/
  | separated (item : Rule)
  /-- `(item (',' item)*)?` -/
  | list (item : Rule)
deriving DecidableEq

/-- What may follow an expression as a part of it. -/
inductive Suffix where
  | dot (name : String)
  | index (key : Expr)
  | call (arguments : List Expr)

/-- The expression with a suffix. -/
def Suffix.apply (e : Expr) : Suffix → Expr
  | dot name => .dot e (.name name)
  | index key => .index e key
  | call arguments => .call e arguments

/-- An expression with suffixes, the first one innermost. -/
def applySuffixes (e : Expr) (suffixes : List Suffix) : Expr := suffixes.foldl Suffix.apply e

/-- Operations on an expression, the first one innermost. -/
def applyOperations (lhs : Expr) (operations : List (Operator × Expr)) : Expr :=
  operations.foldl (fun lhs o => .binary o.1 lhs o.2) lhs

/-- What the trees of a rule are. -/
def Rule.Tree : Rule → Type
  | program => Program
  | statements => List Stmt
  | statement => Stmt
  | expr | operand | sum | product | chain | primary => Expr
  | entry => Property
  | sumTail | productTail => List (Operator × Expr)
  | suffixes => List Suffix
  | suffix => Suffix
  | word => String
  | separated item | list item => List item.Tree

/-- The kind of the first token, which is `eof` where there is none. -/
def headKind : List Token → Token.Kind
  | [] => .eof
  | t :: _ => t.kind

@[simp] theorem headKind_nil : headKind [] = .eof := rfl

@[simp] theorem headKind_cons (t : Token) (ts : List Token) : headKind (t :: ts) = t.kind := rfl

theorem headKind_append {ts us : List Token} (h : headKind ts ≠ .eof) :
    headKind (ts ++ us) = headKind ts := by
  cases ts with
  | nil => exact absurd rfl h
  | cons => rfl

/-- The rule derives the tokens with the tree.

```
program   := statement*
statement := 'let' name ';' | ('let' | 'const') name '=' expr ';' | expr ';'?
           | 'fn' name '(' (word (',' word)*)? ')' '{' statement* '}'
expr      := operand ('=' expr)?
operand   := '{' (entry (',' entry)*)? '}' suffix* | sum
entry     := name (':' expr)?
sum       := product (('+' | '-') product)*
product   := chain (('*' | '/' | '%') chain)*
chain     := primary suffix*
suffix    := '.' word | '[' expr ']' | '(' (expr (',' expr)*)? ')'
primary   := name | number | '(' expr ')'
word      := name | '(' word ')'
```

Sums, products and suffixes are folded to the left. -/
inductive Derives : (r : Rule) → List Token → r.Tree → Prop
  | program {ts : List Token} {body : List Stmt} (h : Derives .statements ts body) :
      Derives .program ts (Program.mk body)
  | noStatement : Derives .statements [] ([] : List Stmt)
  | statements {ts us : List Token} {s : Stmt} {rest : List Stmt} (h : Derives .statement ts s)
      (hrest : Derives .statements us rest) : Derives .statements (ts ++ us) (s :: rest)
  /-- The semicolon behind an expression may be missing, unless a parenthesis follows. -/
  | bareStatements {ts us : List Token} {e : Expr} {rest : List Stmt} (h : Derives .expr ts e)
      (hrest : Derives .statements us rest) (hnext : headKind us ≠ .leftParen) :
      Derives .statements (ts ++ us) (Stmt.expr e :: rest)
  | declareOnly {k x c : Token} (hk : k.kind = .letWord) (hx : x.kind = .name)
      (hc : c.kind = .semicolon) :
      Derives .statement [k, x, c] (Stmt.declare false x.text none)
  | declare {k x q c : Token} {ts : List Token} {e : Expr} {constant : Bool}
      (hk : k.kind = if constant then .constWord else .letWord) (hx : x.kind = .name)
      (hq : q.kind = .equal) (h : Derives .expr ts e) (hc : c.kind = .semicolon) :
      Derives .statement (k :: x :: q :: (ts ++ [c])) (Stmt.declare constant x.text (some e))
  | define {k x l r b c : Token} {ts us : List Token} {params : List String} {body : List Stmt}
      (hk : k.kind = .fnWord) (hx : x.kind = .name) (hl : l.kind = .leftParen)
      (hparams : Derives (.list .word) ts params) (hr : r.kind = .rightParen)
      (hb : b.kind = .leftCurly) (hbody : Derives .statements us body) (hc : c.kind = .rightCurly) :
      Derives .statement (k :: x :: l :: (ts ++ r :: b :: (us ++ [c])))
        (Stmt.define x.text params body)
  | exprStatement {ts : List Token} {c : Token} {e : Expr} (h : Derives .expr ts e)
      (hc : c.kind = .semicolon) : Derives .statement (ts ++ [c]) (Stmt.expr e)
  | expr {ts : List Token} {e : Expr} (h : Derives .operand ts e) : Derives .expr ts e
  | assign {ts us : List Token} {q : Token} {target value : Expr}
      (htarget : Derives .operand ts target) (hq : q.kind = .equal)
      (hvalue : Derives .expr us value) :
      Derives .expr (ts ++ q :: us) (Expr.assign target value)
  | object {ts us : List Token} {l r : Token} {entries : List Property} {ss : List Suffix}
      (hl : l.kind = .leftCurly) (h : Derives (.list .entry) ts entries)
      (hr : r.kind = .rightCurly) (hss : Derives .suffixes us ss) :
      Derives .operand (l :: (ts ++ r :: us)) (applySuffixes (.object entries) ss)
  | operand {ts : List Token} {e : Expr} (h : Derives .sum ts e) : Derives .operand ts e
  | shorthand {x : Token} (hx : x.kind = .name) :
      Derives .entry [x] (Property.shorthand x.text)
  | keyed {x c : Token} {ts : List Token} {e : Expr} (hx : x.kind = .name) (hc : c.kind = .colon)
      (h : Derives .expr ts e) : Derives .entry (x :: c :: ts) (Property.keyed x.text e)
  | sum {ts us : List Token} {e : Expr} {ops : List (Operator × Expr)} (h : Derives .product ts e)
      (hops : Derives .sumTail us ops) : Derives .sum (ts ++ us) (applyOperations e ops)
  | sumEnd : Derives .sumTail [] ([] : List (Operator × Expr))
  | sumStep {ts us : List Token} {t : Token} {o : Operator} {e : Expr}
      {ops : List (Operator × Expr)} (ht : Operator.ofSumKind? t.kind = some o)
      (h : Derives .product ts e) (hops : Derives .sumTail us ops) :
      Derives .sumTail (t :: (ts ++ us)) ((o, e) :: ops)
  | product {ts us : List Token} {e : Expr} {ops : List (Operator × Expr)}
      (h : Derives .chain ts e) (hops : Derives .productTail us ops) :
      Derives .product (ts ++ us) (applyOperations e ops)
  | productEnd : Derives .productTail [] ([] : List (Operator × Expr))
  | productStep {ts us : List Token} {t : Token} {o : Operator} {e : Expr}
      {ops : List (Operator × Expr)} (ht : Operator.ofProductKind? t.kind = some o)
      (h : Derives .chain ts e) (hops : Derives .productTail us ops) :
      Derives .productTail (t :: (ts ++ us)) ((o, e) :: ops)
  | chain {ts us : List Token} {e : Expr} {ss : List Suffix} (h : Derives .primary ts e)
      (hss : Derives .suffixes us ss) : Derives .chain (ts ++ us) (applySuffixes e ss)
  | noSuffix : Derives .suffixes [] ([] : List Suffix)
  | suffixes {ts us : List Token} {s : Suffix} {ss : List Suffix} (h : Derives .suffix ts s)
      (hss : Derives .suffixes us ss) : Derives .suffixes (ts ++ us) (s :: ss)
  | dot {d : Token} {ts : List Token} {x : String} (hd : d.kind = .dot) (h : Derives .word ts x) :
      Derives .suffix (d :: ts) (Suffix.dot x)
  | index {l r : Token} {ts : List Token} {e : Expr} (hl : l.kind = .leftBracket)
      (h : Derives .expr ts e) (hr : r.kind = .rightBracket) :
      Derives .suffix (l :: (ts ++ [r])) (Suffix.index e)
  | call {l r : Token} {ts : List Token} {args : List Expr} (hl : l.kind = .leftParen)
      (h : Derives (.list .expr) ts args) (hr : r.kind = .rightParen) :
      Derives .suffix (l :: (ts ++ [r])) (Suffix.call args)
  | name {x : Token} (hx : x.kind = .name) : Derives .primary [x] (Expr.name x.text)
  | number {t : Token} (hdigits : Number.IsDigitRun t.text) (ht : t.kind = .number) :
      Derives .primary [t] (Expr.number (Number.ofDigitRun t.text))
  | parens {l r : Token} {ts : List Token} {e : Expr} (hl : l.kind = .leftParen)
      (h : Derives .expr ts e) (hr : r.kind = .rightParen) :
      Derives .primary (l :: (ts ++ [r])) e
  | word {x : Token} (hx : x.kind = .name) : Derives .word [x] x.text
  | wordParens {l r : Token} {ts : List Token} {x : String} (hl : l.kind = .leftParen)
      (h : Derives .word ts x) (hr : r.kind = .rightParen) : Derives .word (l :: (ts ++ [r])) x
  | one {item : Rule} {ts : List Token} {x : item.Tree} (h : Derives item ts x) :
      Derives (.separated item) ts [x]
  | more {item : Rule} {ts us : List Token} {c : Token} {x : item.Tree} {xs : List item.Tree}
      (h : Derives item ts x) (hc : c.kind = .comma) (hrest : Derives (.separated item) us xs) :
      Derives (.separated item) (ts ++ c :: us) (x :: xs)
  | emptyList {item : Rule} : Derives (.list item) [] ([] : List item.Tree)
  | list {item : Rule} {ts : List Token} {xs : List item.Tree}
      (h : Derives (.separated item) ts xs) : Derives (.list item) ts xs

/-! ## First tokens -/

/-- The kinds of tokens that the phrases of a rule start with; just `eof` stands for a rule that
derives no tokens at all. -/
def Rule.first : Rule → List Token.Kind
  | statement => [.letWord, .constWord, .fnWord, .name, .number, .leftParen, .leftCurly]
  | expr | operand => [.name, .number, .leftParen, .leftCurly]
  | sum | product | chain | primary => [.name, .number, .leftParen]
  | entry => [.name]
  | word => [.name, .leftParen]
  | suffix => [.dot, .leftBracket, .leftParen]
  | separated item => item.first
  | program | statements | sumTail | productTail | suffixes | list _ => [.eof]

theorem mem_headKind_append {kinds : List Token.Kind} {ts : List Token}
    (h : headKind ts ∈ kinds) (hk : .eof ∉ kinds) (us : List Token) :
    headKind (ts ++ us) ∈ kinds := by
  rwa [headKind_append fun hts => hk (hts ▸ h)]

/-- A phrase starts with a token that its rule allows there. -/
theorem headKind_mem_first {r : Rule} {ts : List Token} {x : r.Tree} (h : Derives r ts x)
    (hr : .eof ∉ r.first) : headKind ts ∈ r.first := by
  induction h with
  | program | noStatement | statements | bareStatements | sumEnd | sumStep | productEnd
  | productStep | noSuffix | suffixes | emptyList | list => exact absurd (.head _) hr
  | declareOnly hk | define hk => simp [Rule.first, hk]
  | @declare _ _ _ _ _ _ constant hk => cases constant <;> simp_all [Rule.first]
  | exprStatement _ _ ih =>
    exact mem_headKind_append (List.mem_append_right [.letWord, .constWord, .fnWord]
      (ih (by decide))) (by decide) _
  | expr _ ih => exact ih (by decide)
  | assign _ _ _ ih => exact mem_headKind_append (ih (by decide)) (by decide) _
  | object hl => simp [Rule.first, hl]
  | operand _ ih => exact List.mem_append_left [.leftCurly] (ih (by decide))
  | shorthand hx | keyed hx | name hx | word hx => simp [Rule.first, hx]
  | sum _ _ ih | product _ _ ih | chain _ _ ih =>
    exact mem_headKind_append (ih (by decide)) (by decide) _
  | dot hd => simp [Rule.first, hd]
  | index hl | call hl | parens hl | wordParens hl => simp [Rule.first, hl]
  | number _ ht => simp [Rule.first, ht]
  | one _ ih => exact ih hr
  | more _ _ _ ih => exact mem_headKind_append (ih hr) hr _

theorem Derives.ne_nil {r : Rule} {ts : List Token} {x : r.Tree} (h : Derives r ts x)
    (hr : .eof ∉ r.first) : ts ≠ [] := by
  rintro rfl
  exact hr (headKind_mem_first h hr)

/-! ## Names in parentheses -/

theorem eq_of_applySuffixes_eq_name {e : Expr} {ss : List Suffix} {x : String}
    (h : applySuffixes e ss = .name x) : ss = [] ∧ e = .name x := by
  rcases ss.eq_nil_or_concat with rfl | ⟨init, s, rfl⟩
  · exact ⟨rfl, h⟩
  · rw [List.concat_eq_append, applySuffixes, List.foldl_append] at h
    cases s <;> cases h

theorem eq_of_applyOperations_eq_name {e : Expr} {ops : List (Operator × Expr)} {x : String}
    (h : applyOperations e ops = .name x) : ops = [] ∧ e = .name x := by
  rcases ops.eq_nil_or_concat with rfl | ⟨init, o, rfl⟩
  · exact ⟨rfl, h⟩
  · rw [List.concat_eq_append, applyOperations, List.foldl_append] at h
    cases h

variable {ts : List Token} {x : String}

theorem Derives.primary_of_chain (h : Derives .chain ts (Expr.name x)) :
    Derives .primary ts (Expr.name x) := by
  generalize he : Expr.name x = e at h
  cases h with
  | chain h hss =>
    obtain ⟨rfl, rfl⟩ := eq_of_applySuffixes_eq_name he.symm
    cases hss
    rwa [List.append_nil]

theorem Derives.chain_of_product (h : Derives .product ts (Expr.name x)) :
    Derives .chain ts (Expr.name x) := by
  generalize he : Expr.name x = e at h
  cases h with
  | product h hops =>
    obtain ⟨rfl, rfl⟩ := eq_of_applyOperations_eq_name he.symm
    cases hops
    rwa [List.append_nil]

theorem Derives.product_of_sum (h : Derives .sum ts (Expr.name x)) :
    Derives .product ts (Expr.name x) := by
  generalize he : Expr.name x = e at h
  cases h with
  | sum h hops =>
    obtain ⟨rfl, rfl⟩ := eq_of_applyOperations_eq_name he.symm
    cases hops
    rwa [List.append_nil]

theorem Derives.sum_of_expr (h : Derives .expr ts (Expr.name x)) :
    Derives .sum ts (Expr.name x) := by
  generalize he : Expr.name x = e at h
  cases h with
  | assign => cases he
  | expr h =>
    cases h with
    | operand h => exact he ▸ h
    | object => cases (eq_of_applySuffixes_eq_name he.symm).2

/-- An expression that is a name is one in parentheses. -/
theorem Derives.primary_of_expr (h : Derives .expr ts (Expr.name x)) :
    Derives .primary ts (Expr.name x) :=
  h.sum_of_expr.product_of_sum.chain_of_product.primary_of_chain

theorem Derives.word_of_primary {n : Nat} (hn : ts.length ≤ n)
    (h : Derives .primary ts (Expr.name x)) : Derives .word ts x := by
  induction n generalizing ts with
  | zero => exact absurd (List.length_eq_zero_iff.1 (Nat.le_zero.1 hn)) (h.ne_nil (by decide))
  | succ n ih =>
    generalize he : Expr.name x = e at h
    cases h with
    | name hx =>
      obtain rfl := Expr.name.inj he
      exact .word hx
    | number => cases he
    | @parens l r ts _ hl h hr =>
      subst he
      have hlen : ts.length ≤ n := by
        simp only [List.length_cons, List.length_append] at hn
        omega
      exact .wordParens hl (ih hlen h.primary_of_expr) hr

theorem Derives.chain_of_primary {e : Expr} (h : Derives .primary ts e) : Derives .chain ts e := by
  have hchain : Derives .chain (ts ++ []) (applySuffixes e []) := .chain h .noSuffix
  rwa [List.append_nil] at hchain

theorem Derives.product_of_chain {e : Expr} (h : Derives .chain ts e) : Derives .product ts e := by
  have hproduct : Derives .product (ts ++ []) (applyOperations e []) := .product h .productEnd
  rwa [List.append_nil] at hproduct

theorem Derives.sum_of_product {e : Expr} (h : Derives .product ts e) : Derives .sum ts e := by
  have hsum : Derives .sum (ts ++ []) (applyOperations e []) := .sum h .sumEnd
  rwa [List.append_nil] at hsum

theorem Derives.operand_of_chain {e : Expr} (h : Derives .chain ts e) : Derives .operand ts e :=
  .operand h.product_of_chain.sum_of_product

theorem Derives.expr_of_primary {e : Expr} (h : Derives .primary ts e) : Derives .expr ts e :=
  .expr h.chain_of_primary.operand_of_chain

theorem Derives.primary_of_word {n : Nat} (hn : ts.length ≤ n) (h : Derives .word ts x) :
    Derives .primary ts (Expr.name x) := by
  induction n generalizing ts with
  | zero => exact absurd (List.length_eq_zero_iff.1 (Nat.le_zero.1 hn)) (h.ne_nil (by decide))
  | succ n ih =>
    cases h with
    | word hx => exact .name hx
    | @wordParens l r ts _ hl h hr =>
      have hlen : ts.length ≤ n := by
        simp only [List.length_cons, List.length_append] at hn
        omega
      exact .parens hl (ih hlen h).expr_of_primary hr

theorem Derives.word_of_expr (h : Derives .expr ts (Expr.name x)) : Derives .word ts x :=
  word_of_primary (Nat.le_refl _) h.primary_of_expr

theorem Derives.expr_of_word (h : Derives .word ts x) : Derives .expr ts (Expr.name x) :=
  (primary_of_word (Nat.le_refl _) h).expr_of_primary

theorem Derives.separated_word {xs : List String} {es : List Expr} (hes : es = xs.map .name)
    (h : Derives (.separated .expr) ts es) : Derives (.separated .word) ts xs := by
  induction xs generalizing ts es with
  | nil => cases h <;> cases hes
  | cons x xs ih =>
    cases h with
    | one h =>
      obtain ⟨rfl, hxs⟩ := List.cons.inj hes
      obtain rfl : xs = [] := List.map_eq_nil_iff.1 hxs.symm
      exact .one h.word_of_expr
    | more h hc hrest =>
      obtain ⟨rfl, rfl⟩ := List.cons.inj hes
      exact .more h.word_of_expr hc (ih rfl hrest)

theorem Derives.separated_expr {xs : List String} (h : Derives (.separated .word) ts xs) :
    Derives (.separated .expr) ts (xs.map Expr.name) := by
  induction xs generalizing ts with
  | nil => cases h
  | cons x xs ih =>
    cases h with
    | one h => exact .one h.expr_of_word
    | more h hc hrest => exact .more h.expr_of_word hc (ih hrest)

/-- A list of expressions that are names is a list of words. -/
theorem Derives.list_word {xs : List String} {es : List Expr} (hes : es = xs.map .name)
    (h : Derives (.list .expr) ts es) : Derives (.list .word) ts xs := by
  cases h with
  | emptyList =>
    obtain rfl : xs = [] := List.map_eq_nil_iff.1 hes.symm
    exact .emptyList
  | list h => exact .list (h.separated_word hes)

theorem Derives.list_expr {xs : List String} (h : Derives (.list .word) ts xs) :
    Derives (.list .expr) ts (xs.map Expr.name) := by
  cases h with
  | emptyList => exact .emptyList
  | list h => exact .list h.separated_expr

end Grammar

end ScopeScript
