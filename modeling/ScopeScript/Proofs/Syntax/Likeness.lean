import ScopeScript.Proofs.Syntax.Reading
import ScopeScript.Proofs.Token.Layout

/-!
# Parsers on similar tokens

A parser decides by the kinds of tokens and takes texts from them; a line it takes only to report an
error.  So on two lists of tokens with the same words it does the same: it ends with the same
result, or with the same error on the lines of corresponding tokens.

`Matches R Q m m'` says this of two parsers, for tokens related by `R` and results related by `Q`.
It holds of each rule of the grammar with itself (`respects_program`), whatever relation of tokens
with the same words `R` is.
-/

namespace ScopeScript

/-- Streams with related tokens. -/
structure TokenStream.Alike (R : Token → Token → Prop) (s s' : TokenStream) : Prop where
  next : R s.next s'.next
  rest : List.Forall₂ R s.rest s'.rest

theorem TokenStream.Alike.drop {R : Token → Token → Prop} {s s' : TokenStream}
    (h : s.Alike R s') : s.drop.Alike R s'.drop := by
  obtain ⟨t, ts⟩ := s
  obtain ⟨t', ts'⟩ := s'
  obtain ⟨hnext, hrest⟩ := h
  cases hrest with
  | nil => exact ⟨hnext, .nil⟩
  | cons hhead htail => exact ⟨hhead, htail⟩

theorem Token.SameWord.shown {t u : Token} (h : t.SameWord u) : t.shown = u.shown := by
  rw [Token.shown, Token.shown, h.kind, h.text]

/-- A cause that may be reported for the token: it is about a bad number only if the token is
one. -/
def SyntaxError.Cause.Fits (cause : Cause) (t : Token) : Prop :=
  ∀ text, cause = .badNumber text → t.kind = .number ∧ Number.parse? t.text = none

namespace Parser

variable {α β γ δ : Type} {R : Token → Token → Prop}

/-- Ends of two parsers with related results, or with errors that are the same but for the lines,
which are those of related tokens. -/
inductive Ends (R : Token → Token → Prop) (Q : α → β → Prop) :
    EStateM.Result SyntaxError TokenStream α → EStateM.Result SyntaxError TokenStream β → Prop
  | ok {a : α} {b : β} {s s' : TokenStream} (hQ : Q a b) (hs : s.Alike R s') :
      Ends R Q (.ok a s) (.ok b s')
  | error {t t' : Token} {cause : SyntaxError.Cause} {s s' : TokenStream} (ht : R t t')
      (hcause : cause.Fits t) (hs : s.Alike R s') :
      Ends R Q (.error ⟨t.line, cause⟩ s) (.error ⟨t'.line, cause⟩ s')

/-- Parsers that come from streams with related tokens to related ends. -/
def Matches (R : Token → Token → Prop) (Q : α → β → Prop) (m : Parser α) (m' : Parser β) : Prop :=
  ∀ s s', s.Alike R s' → Ends R Q (m s) (m' s')

/-- A parser that does the same on streams with related tokens. -/
abbrev Respects (R : Token → Token → Prop) (m : Parser α) : Prop := Matches R (· = ·) m m

/-! ## Rules -/

theorem Matches.bind {Q : α → β → Prop} {Q' : γ → δ → Prop} {m : Parser α} {m' : Parser β}
    {f : α → Parser γ} {f' : β → Parser δ} (hm : Matches R Q m m')
    (hf : ∀ a b, Q a b → Matches R Q' (f a) (f' b)) : Matches R Q' (m >>= f) (m' >>= f') := by
  intro s s' hs
  have hends := hm s s' hs
  simp only [Bind.bind, EStateM.bind]
  generalize m s = r, m' s' = r' at hends
  cases hends with
  | ok hQ hs => exact hf _ _ hQ _ _ hs
  | error ht hcause hs => exact .error ht hcause hs

theorem Matches.throw {Q : α → β → Prop} {t t' : Token} {cause : SyntaxError.Cause} (ht : R t t')
    (hcause : cause.Fits t) : Matches R Q (throw ⟨t.line, cause⟩) (throw ⟨t'.line, cause⟩) :=
  fun _ _ hs => .error ht hcause hs

theorem Matches.pure (a : α) : Respects R (pure a : Parser α) := fun _ _ hs => .ok rfl hs

theorem Matches.after {Q : γ → δ → Prop} {m : Parser α} {f : α → Parser γ} {f' : α → Parser δ}
    (hm : Respects R m) (hf : ∀ a, Matches R Q (f a) (f' a)) :
    Matches R Q (m >>= f) (m >>= f') := by
  refine hm.bind ?_
  rintro a _ rfl
  exact hf a

theorem matches_peek : Matches R R peek peek := fun _ _ hs => .ok hs.next hs

theorem matches_advance : Matches R R advance advance := fun _ _ hs => .ok hs.next hs.drop

/-- A token that is read for nothing but to get behind it. -/
theorem Matches.skip {Q : α → β → Prop} {m : Parser α} {m' : Parser β} (hm : Matches R Q m m') :
    Matches R Q (advance >>= fun _ => m) (advance >>= fun _ => m') :=
  matches_advance.bind fun _ _ _ => hm

section Rules

variable (hR : ∀ t t', R t t' → t.SameWord t')
include hR

/-! ## Single tokens -/

theorem respects_peekKind : Respects R peekKind := fun _ _ hs => .ok (hR _ _ hs.next).kind hs

theorem respects_accept (kind : Token.Kind) : Respects R (accept kind) := by
  refine (respects_peekKind hR).after fun k => ?_
  split
  · exact (Matches.pure true).skip
  · exact .pure false

theorem respects_failAtNext {cause : String → SyntaxError.Cause}
    (hcause : ∀ found text, cause found ≠ .badNumber text) :
    Respects R (failAtNext cause : Parser α) := by
  refine matches_peek.bind fun t t' ht => ?_
  rw [(hR t t' ht).shown]
  exact .throw ht fun text htext => absurd htext (hcause _ text)

theorem respects_expect (kind : Token.Kind) : Respects R (expect kind) := by
  refine (respects_peekKind hR).after fun k => ?_
  split
  · exact (Matches.pure ()).skip
  · exact respects_failAtNext hR (by simp)

theorem respects_nameOr {cause : String → SyntaxError.Cause}
    (hcause : ∀ found text, cause found ≠ .badNumber text) : Respects R (nameOr cause) := by
  refine (respects_peekKind hR).after fun k => ?_
  split
  · refine matches_advance.bind fun t t' ht => ?_
    rw [(hR t t' ht).text]
    exact Matches.pure _
  · exact respects_failAtNext hR hcause

/-! ## Lists and chains -/

theorem respects_commaSeparated {item : Parser α} (hitem : Respects R item) (n : Nat) :
    Respects R (commaSeparated item n) := by
  induction n with
  | zero => exact hitem.after fun first => .pure _
  | succ n ih =>
    refine hitem.after fun first => (respects_accept hR .comma).after fun b => ?_
    cases b with
    | true => exact ih.after fun rest => .pure _
    | false => exact .pure _

theorem respects_commaSeparatedUntil (close : Token.Kind) {item : Parser α}
    (hitem : Respects R item) (n : Nat) : Respects R (commaSeparatedUntil close item n) := by
  have hclose (items : List α) : Respects R (expect close >>= fun _ => Pure.pure items) :=
    (respects_expect hR close).after fun _ => .pure items
  refine (respects_peekKind hR).after fun k => ?_
  split
  · exact (Matches.pure []).after hclose
  · exact (respects_commaSeparated hR hitem n).after hclose

theorem respects_operations (operator? : Token.Kind → Option Operator) {operand : Parser Expr}
    (hoperand : Respects R operand) (n : Nat) (lhs : Expr) :
    Respects R (operations operator? operand n lhs) := by
  induction n generalizing lhs with
  | zero => exact .pure lhs
  | succ n ih =>
    refine (respects_peekKind hR).after fun k => ?_
    cases operator? k with
    | none => exact .pure lhs
    | some operator => exact (hoperand.after fun rhs => ih _).skip

theorem respects_itemsUntil (stop : Token.Kind → Bool) {item : Parser α} (hitem : Respects R item)
    (n : Nat) : Respects R (itemsUntil stop item n) := by
  induction n with
  | zero => exact .pure []
  | succ n ih =>
    refine (respects_peekKind hR).after fun k => ?_
    split
    · exact .pure []
    · exact hitem.after fun first => ih.after fun rest => .pure _

/-! ## Expressions -/

section Expressions

variable {expr : Parser Expr} (hexpr : Respects R expr)
include hexpr

theorem respects_primary : Respects R (primary expr) := by
  intro s s' hs
  obtain ⟨hkind', htext⟩ := hR _ _ hs.next
  have hpeek (s : TokenStream) : peekKind s = .ok s.next.kind s := rfl
  have hadvance (s : TokenStream) : advance s = .ok s.next s.drop := rfl
  rw [primary, bind_ok (hpeek s), bind_ok (hpeek s'), ← hkind']
  cases hkind : s.next.kind with
  | name =>
    refine matches_advance.bind (fun t t' ht => ?_) s s' hs
    rw [(hR t t' ht).text]
    exact Matches.pure _
  | number =>
    -- The text of this token is no number if the parser fails.
    simp only [bind_ok (hadvance s), bind_ok (hadvance s'), ← htext]
    cases hx : Number.parse? s.next.text with
    | some x => exact .ok rfl hs.drop
    | none => exact .error hs.next (fun _ _ => ⟨hkind, hx⟩) hs.drop
  | leftParen =>
    have hrest : Respects R (expr >>= fun e => expect .rightParen >>= fun _ => pure e) :=
      hexpr.after fun e => (respects_expect hR .rightParen).after fun _ => .pure e
    exact hrest.skip s s' hs
  | _ => exact respects_failAtNext hR (by simp) s s' hs

theorem respects_arguments (n : Nat) : Respects R (arguments expr n) :=
  (respects_expect hR .leftParen).after fun _ => respects_commaSeparatedUntil hR .rightParen hexpr n

theorem respects_propertyName : Respects R (propertyName (primary expr)) := by
  refine matches_peek.bind fun t t' ht => ?_
  refine (respects_primary hR hexpr).after fun e => ?_
  cases e with
  | name x => exact Matches.pure _
  | _ =>
    rw [(hR t t' ht).shown]
    exact .throw ht (by simp [SyntaxError.Cause.Fits])

theorem respects_suffixes (n : Nat) (e : Expr) : Respects R (suffixes expr n e) := by
  induction n generalizing e with
  | zero => exact .pure e
  | succ n ih =>
    refine (respects_peekKind hR).after fun k => ?_
    cases k with
    | dot => exact ((respects_propertyName hR hexpr).after fun property => ih _).skip
    | leftBracket =>
      have hrest : Respects R (expr >>= fun key => expect .rightBracket >>= fun _ =>
          suffixes expr n (.index e key)) :=
        hexpr.after fun key => (respects_expect hR .rightBracket).after fun _ => ih _
      exact hrest.skip
    | leftParen => exact (respects_arguments hR hexpr n).after fun args => ih _
    | _ => exact .pure e

theorem respects_chain (n : Nat) : Respects R (chain expr n) :=
  (respects_primary hR hexpr).after fun e => respects_suffixes hR hexpr n e

theorem respects_product (n : Nat) : Respects R (product expr n) :=
  have hchain := respects_chain hR hexpr n
  hchain.after fun e => respects_operations hR _ hchain n e

theorem respects_sum (n : Nat) : Respects R (sum expr n) :=
  have hproduct := respects_product hR hexpr n
  hproduct.after fun e => respects_operations hR _ hproduct n e

theorem respects_property : Respects R (property expr) := by
  refine (respects_nameOr hR (by simp)).after fun key => ?_
  refine (respects_accept hR .colon).after fun b => ?_
  cases b with
  | true => exact hexpr.after fun e => .pure _
  | false => exact .pure _

theorem respects_operand (n : Nat) : Respects R (operand expr n) := by
  refine (respects_accept hR .leftCurly).after fun b => ?_
  cases b with
  | true =>
    refine (respects_commaSeparatedUntil hR .rightCurly (respects_property hR hexpr) n).after ?_
    exact fun properties => respects_suffixes hR hexpr n _
  | false => exact respects_sum hR hexpr n

theorem respects_assignment (n : Nat) : Respects R (assignment expr n) := by
  refine (respects_operand hR hexpr n).after fun target => ?_
  refine (respects_accept hR .equal).after fun b => ?_
  cases b with
  | true => exact hexpr.after fun value => .pure _
  | false => exact .pure target

end Expressions

theorem respects_expr (n : Nat) : Respects R (expr n) := by
  induction n with
  | zero => exact respects_failAtNext hR (by simp)
  | succ n ih => exact respects_assignment hR ih (n + 1)

/-! ## Statements -/

section Statements

variable {expr : Parser Expr} (hexpr : Respects R expr)
include hexpr

theorem respects_declaration : Respects R (declaration expr) := by
  refine matches_advance.bind fun k k' hk => ?_
  rw [← (hR k k' hk).kind]
  refine (respects_nameOr hR (by simp)).after fun name => matches_peek.bind fun t t' ht => ?_
  rw [← (hR t t' ht).kind]
  split
  · refine matches_advance.bind fun _ _ _ => ?_
    split
    · exact .throw ht (by simp [SyntaxError.Cause.Fits])
    · exact Matches.pure _
  · have hrest : Respects R (expect .equal >>= fun _ => expr >>= fun init =>
        expect .semicolon >>= fun _ =>
          pure (Stmt.declare (k.kind = .constWord) name (some init))) :=
      (respects_expect hR .equal).after fun _ => hexpr.after fun init =>
        (respects_expect hR .semicolon).after fun _ => .pure _
    exact hrest

theorem respects_definition {statement : Parser Stmt} (hstatement : Respects R statement)
    (n : Nat) : Respects R (definition expr statement n) := by
  refine Matches.skip ((respects_nameOr hR (by simp)).after fun name => ?_)
  refine matches_peek.bind fun t t' ht => (respects_arguments hR hexpr n).after fun args => ?_
  cases parameters? args with
  | none => exact .throw ht (by simp [SyntaxError.Cause.Fits])
  | some params =>
    have hrest : Respects R (expect .leftCurly >>= fun _ =>
        itemsUntil (fun kind => kind = .rightCurly ∨ kind = .eof) statement n >>= fun body =>
          expect .rightCurly >>= fun _ => pure (Stmt.define name params body)) :=
      (respects_expect hR .leftCurly).after fun _ =>
        (respects_itemsUntil hR _ hstatement n).after fun body =>
          (respects_expect hR .rightCurly).after fun _ => .pure _
    exact hrest

theorem respects_expressionStatement : Respects R (expressionStatement expr) :=
  hexpr.after fun _ => (respects_accept hR .semicolon).after fun _ => .pure _

end Statements

theorem respects_statement (n : Nat) : Respects R (statement n) := by
  induction n with
  | zero => exact respects_expressionStatement hR (respects_expr hR 0)
  | succ n ih =>
    have hexpr := respects_expr hR n
    refine (respects_peekKind hR).after fun k => ?_
    cases k with
    | letWord | constWord => exact respects_declaration hR hexpr
    | fnWord => exact respects_definition hR hexpr ih n
    | _ => exact respects_expressionStatement hR (respects_expr hR (n + 1))

/-- The bound of a program is the number of its tokens, which similar streams have in common. -/
theorem respects_program : Respects R program := by
  intro s s' hs
  have hbody (n : Nat) : Respects R (itemsUntil (· = .eof) (statement n) n >>= fun body =>
      pure (Program.mk body)) :=
    (respects_itemsUntil hR _ (respects_statement hR n) n).after fun body => .pure _
  have hlength : s.rest.length = s'.rest.length := hs.rest.length_eq
  have hends := hbody s.rest.length s s' hs
  show Ends R _ _ ((itemsUntil (· = .eof) (statement s'.rest.length) s'.rest.length >>= fun body =>
      pure (Program.mk body)) s')
  rw [← hlength]
  exact hends

end Rules

end Parser

end ScopeScript
