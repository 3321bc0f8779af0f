import ScopeScript.Proofs.Syntax.Diagnostics
import Mathlib.Logic.Function.Iterate

/-!
# The rules without bounds

`Parser.expr` and `Parser.statement` take a bound, and so does each loop.  Here is what the rules do
between two calls of one another, with no bound: `Calls` answers the calls, a loop calling what is
left of it, and `Calls.unfold` answers each call with the rule that is called, whose own calls are
answered as before.

A rule calls another one only behind a token that it has read.  So when the rules are unfolded more
often than there are tokens, it does not matter how the calls are answered that are nested still
deeper: none is made, and the answer is that of the rules with bounds (`Calls.Agree.iterate`).
-/

namespace ScopeScript

namespace Parser

variable {α : Type}

/-! ## One token that decides -/

theorem accept_of_eq {kind : Token.Kind} {s : TokenStream} (hs : s.next.kind = kind) :
    accept kind s = .ok true s.drop := by
  rw [accept, bind_ok (peekKind_apply s), if_pos hs]
  rfl

theorem accept_of_ne {kind : Token.Kind} {s : TokenStream} (hs : s.next.kind ≠ kind) :
    accept kind s = .ok false s := by
  rw [accept, bind_ok (peekKind_apply s), if_neg hs]
  rfl

/-- A token that decides between two parsers is read in front of the first one. -/
theorem inStep_acceptOr {k least : Nat} {kind : Token.Kind} (hkind : kind ≠ .eof)
    {m m' n n' : Parser α} (hm : InStep (k - 1) least m m') (hn : InStep k least n n') :
    InStep k least (accept kind >>= fun b => if b then m else n)
      (accept kind >>= fun b => if b then m' else n') := by
  intro t seen
  by_cases ht : t.kind = kind
  · have hread : InStepAt k t seen (least + 1) (advance >>= fun _ => m) (advance >>= fun _ => m') :=
      .advance (ht ▸ hkind) fun u => hm u _
    refine (hread.weaken (Nat.le_refl k) (Nat.le_succ least)).of_eq ?_ ?_
    · rintro s rfl
      rw [bind_ok (accept_of_eq ht)]
      rfl
    · rintro s rfl
      rw [bind_ok (accept_of_eq ht)]
      rfl
  · refine (hn t seen).of_eq ?_ ?_
    · rintro s rfl
      rw [bind_ok (accept_of_ne ht)]
      rfl
    · rintro s rfl
      rw [bind_ok (accept_of_ne ht)]
      rfl

/-! ## Answers to calls -/

/-- What answers the calls of the rules that call themselves, or one another.  A loop calls what is
left of it, behind what it has read so far. -/
structure Calls where
  expr : Parser Expr
  suffixes : Expr → Parser Expr
  factors : Expr → Parser Expr
  terms : Expr → Parser Expr
  exprs : Parser (List Expr)
  properties : Parser (List Property)
  statement : Parser Stmt
  statements : (Token.Kind → Bool) → Parser (List Stmt)

namespace Calls

/-- The arguments of a call, in parentheses. -/
def arguments (C : Calls) : Parser (List Expr) := do
  expect .leftParen
  enclosed .rightParen C.exprs

/-- A primary expression with the calls and members behind it. -/
def chain (C : Calls) : Parser Expr := do
  C.suffixes (← primary C.expr)

/-- Chains with the operators between them that bind more tightly. -/
def product (C : Calls) : Parser Expr := do
  C.factors (← C.chain)

/-- Products with the other operators between them. -/
def sum (C : Calls) : Parser Expr := do
  C.terms (← C.product)

/-- An object literal with what is behind it, or a sum. -/
def operand (C : Calls) : Parser Expr := do
  if ← accept .leftCurly then
    let properties ← enclosed .rightCurly C.properties
    C.suffixes (.object properties)
  else C.sum

/-- An operand, or an assignment to it. -/
def assignment (C : Calls) : Parser Expr := do
  let target ← C.operand
  if ← accept .equal then return .assign target (← C.expr) else return target

/-- A function with its parameters and its body. -/
def definition (C : Calls) : Parser Stmt := do
  let _ ← advance
  let name ← nameOr .expectedName
  let t ← peek
  let args ← C.arguments
  match parameters? args with
  | none => throw ⟨t.line, .expectedParameterName⟩
  | some params =>
    expect .leftCurly
    let body ← C.statements (fun kind => kind = .rightCurly ∨ kind = .eof)
    expect .rightCurly
    return .define name params body

/-- The statement that the next token starts. -/
def anyStatement (C : Calls) : Parser Stmt := do
  match (← peekKind) with
  | .letWord | .constWord => declaration C.expr
  | .fnWord => C.definition
  | _ => expressionStatement C.assignment

/-- All statements up to the end of the input. -/
def program (C : Calls) : Parser Program :=
  return ⟨← C.statements (· = .eof)⟩

/-- Each call answered with the rule that is called, and its own calls as before. -/
def unfold (C : Calls) : Calls where
  expr := C.assignment
  suffixes := suffix C.expr C.arguments C.suffixes
  factors := operation Operator.ofProductKind? C.chain C.factors
  terms := operation Operator.ofSumKind? C.product C.terms
  exprs := separated C.assignment C.exprs
  properties := separated (property C.expr) C.properties
  statement := C.anyStatement
  statements := fun stop => itemUnless stop C.anyStatement (C.statements stop)

/-- No expression starts at an `eof`. -/
theorem assignment_of_eof (C : Calls) {s : TokenStream} (hs : s.next.kind = .eof) :
    C.assignment s = failAtNext .expectedPrimary s := by
  obtain ⟨⟨kind, text, line⟩, rest⟩ := s
  obtain rfl : kind = .eof := hs
  rfl

theorem anyStatement_of_eof (C : Calls) {s : TokenStream} (hs : s.next.kind = .eof) :
    C.anyStatement s = failAtNext .expectedPrimary s := by
  obtain ⟨⟨kind, text, line⟩, rest⟩ := s
  obtain rfl : kind = .eof := hs
  rfl

/-! ## In step with the rules with bounds -/

/-- In front of at most `k` tokens the answers are in step with those of the rules with bounds,
where these are large enough. -/
structure Agree (k : Nat) (C : Calls) : Prop where
  expr : ∀ n, k ≤ n → InStep k 1 C.expr (Parser.expr n)
  suffixes : ∀ m n e, k ≤ m + 1 → k ≤ n →
    InStep k 0 (C.suffixes e) (Parser.suffixes (Parser.expr m) n e)
  factors : ∀ m b n lhs, k ≤ m + 1 → k ≤ b → k ≤ n →
    InStep k 0 (C.factors lhs)
      (operations Operator.ofProductKind? (Parser.chain (Parser.expr m) b) n lhs)
  terms : ∀ m b n lhs, k ≤ m + 1 → k ≤ b → k ≤ n →
    InStep k 0 (C.terms lhs)
      (operations Operator.ofSumKind? (Parser.product (Parser.expr m) b) n lhs)
  exprs : ∀ m n, k ≤ m → k ≤ n → InStep k 1 C.exprs (commaSeparated (Parser.expr m) n)
  properties : ∀ m n, k ≤ m + 1 → k ≤ n →
    InStep k 1 C.properties (commaSeparated (property (Parser.expr m)) n)
  statement : ∀ n, k ≤ n → InStep k 1 C.statement (Parser.statement n)
  statements : ∀ stop, stop .eof = true → ∀ m n, k ≤ m → k ≤ n →
    InStep k 0 (C.statements stop) (itemsUntil stop (Parser.statement m) n)

namespace Agree

variable {k m n : Nat} {C : Calls}

theorem inStep_arguments (h : Agree k C) (hm : k ≤ m) (hn : k ≤ n) :
    InStep (k + 1) 1 C.arguments (Parser.arguments (Parser.expr m) n) := by
  refine (inStep_expect (by decide)).bind fun _ => ?_
  exact (inStep_enclosed (by decide) (h.exprs m n hm hn)).any

theorem inStep_chain (h : Agree k C) (hm : k ≤ m) (hn : k ≤ n) :
    InStep (k + 1) 1 C.chain (Parser.chain (Parser.expr m) n) :=
  (inStep_primary (k := k + 1) (h.expr m hm)).bind fun e => h.suffixes m n e (by omega) hn

theorem inStep_product (h : Agree k C) (hm : k ≤ m) (hn : k ≤ n) :
    InStep (k + 1) 1 C.product (Parser.product (Parser.expr m) n) :=
  (h.inStep_chain hm hn).bind fun e => h.factors m n n e (by omega) hn hn

theorem inStep_sum (h : Agree k C) (hm : k ≤ m) (hn : k ≤ n) :
    InStep (k + 1) 1 C.sum (Parser.sum (Parser.expr m) n) :=
  (h.inStep_product hm hn).bind fun e => h.terms m n n e (by omega) hn hn

theorem inStep_operand (h : Agree k C) (hm : k ≤ m) (hn : k ≤ n) :
    InStep (k + 1) 1 C.operand (Parser.operand (Parser.expr m) n) := by
  have hobject : InStep k 1
      (enclosed .rightCurly C.properties >>= fun properties => C.suffixes (.object properties))
      (commaSeparatedUntil .rightCurly (property (Parser.expr m)) n >>= fun properties =>
        Parser.suffixes (Parser.expr m) n (.object properties)) :=
    (inStep_enclosed (by decide) (h.properties m n (by omega) hn)).bind fun properties =>
      (h.suffixes m n _ (by omega) hn).fewer (Nat.sub_le k 1)
  exact inStep_acceptOr (k := k + 1) (by decide) hobject (h.inStep_sum hm hn)

theorem inStep_assignment (h : Agree k C) (hm : k ≤ m) (hn : k ≤ n) :
    InStep (k + 1) 1 C.assignment (Parser.assignment (Parser.expr m) n) := by
  refine (h.inStep_operand hm hn).bind fun target => ?_
  refine (inStep_accept (by decide)).bind fun b => ?_
  cases b with
  | true => exact (h.expr m hm).any.bind fun value => .pure _
  | false => exact .pure target

theorem inStepAt_definition (h : Agree k C) {t : Token} {seen : List Token} (ht : t.kind ≠ .eof)
    (hn : k ≤ n) : InStepAt (k + 1) t seen 1 C.definition
      (Parser.definition (Parser.expr n) (Parser.statement n) n) := by
  refine .advance ht fun u => (inStep_name u (t :: seen)).any.bind fun name v => .peek ?_
  have harguments : InStep k 0 C.arguments (Parser.arguments (Parser.expr n) n) :=
    ((h.inStep_arguments hn hn).fewer (Nat.le_succ k)).any
  -- The token `v` has been seen when the arguments turn out not to be parameters.
  refine (harguments v (u :: t :: seen)).bind fun args w => ?_
  cases parameters? args with
  | none => exact .throw (u := v) (by simp) ⟨rfl, by simp, by simp⟩
  | some params =>
    have hbody : InStep k 0 (C.statements fun kind => kind = .rightCurly ∨ kind = .eof)
        (itemsUntil (fun kind => kind = .rightCurly ∨ kind = .eof) (Parser.statement n) n) :=
      h.statements _ (by decide) n n hn hn
    have hend (body : List Stmt) : InStep k 0
        (expect .rightCurly >>= fun _ => pure (Stmt.define name params body))
        (expect .rightCurly >>= fun _ => pure (Stmt.define name params body)) :=
      (inStep_expect (by decide)).any.bind fun _ => .pure _
    exact (inStep_expect (by decide)).any.bind (fun _ => hbody.bind hend) w _

theorem inStep_anyStatement (h : Agree k C) (hn : k ≤ n) :
    InStep (k + 1) 1 C.anyStatement (Parser.statement (n + 1)) := by
  refine fun t seen => .peekKind ?_
  cases ht : t.kind with
  | letWord | constWord =>
    exact inStepAt_declaration (k := k + 1) (by simp [ht]) (h.expr n hn)
  | fnWord => exact h.inStepAt_definition (by simp [ht]) hn
  | _ => exact inStep_expressionStatement (h.inStep_assignment hn (Nat.le_succ_of_le hn)) t seen

/-- Unfolding the rules makes them agree in front of one token more. -/
theorem unfold (h : Agree k C) : Agree (k + 1) C.unfold where
  expr n hn := by
    obtain ⟨n, rfl⟩ := Nat.exists_eq_succ_of_ne_zero (Nat.ne_zero_of_lt hn)
    exact h.inStep_assignment (by omega) (by omega)
  suffixes m n e hm hn := by
    obtain ⟨n, rfl⟩ := Nat.exists_eq_succ_of_ne_zero (Nat.ne_zero_of_lt hn)
    exact inStep_suffix (k := k + 1) (h.expr m (by omega))
      (h.inStep_arguments (by omega) (by omega))
      (fun e => h.suffixes m n e (by omega) (by omega)) e
  factors m b n lhs hm hb hn := by
    obtain ⟨n, rfl⟩ := Nat.exists_eq_succ_of_ne_zero (Nat.ne_zero_of_lt hn)
    have hchain := h.inStep_chain (m := m) (n := b) (by omega) (by omega)
    exact inStep_operation (k := k + 1) rfl (hchain.fewer (Nat.le_succ k))
      (fun e => h.factors m b n e (by omega) (by omega) (by omega)) lhs
  terms m b n lhs hm hb hn := by
    obtain ⟨n, rfl⟩ := Nat.exists_eq_succ_of_ne_zero (Nat.ne_zero_of_lt hn)
    have hproduct := h.inStep_product (m := m) (n := b) (by omega) (by omega)
    exact inStep_operation (k := k + 1) rfl (hproduct.fewer (Nat.le_succ k))
      (fun e => h.terms m b n e (by omega) (by omega) (by omega)) lhs
  exprs m n hm hn := by
    obtain ⟨m, rfl⟩ := Nat.exists_eq_succ_of_ne_zero (Nat.ne_zero_of_lt hm)
    obtain ⟨n, rfl⟩ := Nat.exists_eq_succ_of_ne_zero (Nat.ne_zero_of_lt hn)
    exact inStep_separated (k := k + 1) (h.inStep_assignment (by omega) (by omega))
      (h.exprs (m + 1) n (by omega) (by omega))
  properties m n hm hn := by
    obtain ⟨n, rfl⟩ := Nat.exists_eq_succ_of_ne_zero (Nat.ne_zero_of_lt hn)
    exact inStep_separated (k := k + 1) (inStep_property (k := k + 1) (h.expr m (by omega)))
      (h.properties m n (by omega) (by omega))
  statement n hn := by
    obtain ⟨n, rfl⟩ := Nat.exists_eq_succ_of_ne_zero (Nat.ne_zero_of_lt hn)
    exact h.inStep_anyStatement (by omega)
  statements stop hstop m n hm hn := by
    obtain ⟨m, rfl⟩ := Nat.exists_eq_succ_of_ne_zero (Nat.ne_zero_of_lt hm)
    obtain ⟨n, rfl⟩ := Nat.exists_eq_succ_of_ne_zero (Nat.ne_zero_of_lt hn)
    exact inStep_itemUnless (k := k + 1) (h.inStep_anyStatement (by omega))
      (h.statements stop hstop (m + 1) n (by omega) (by omega))

theorem inStep_assignment_zero (C : Calls) (n : Nat) :
    InStep 0 1 C.assignment (Parser.expr n) :=
  .of_eof inStep_expectedPrimary (fun _ => C.assignment_of_eof) fun _ => expr_of_eof n

/-- With no tokens to be read, one round of the rules is enough, whatever they call. -/
theorem of_unfold (C : Calls) : Agree 0 C.unfold where
  expr n _ := inStep_assignment_zero C n
  suffixes m n e _ _ := .of_eof (.pure e) (fun s => suffix_of_eof _ _ _ e)
    fun s => suffixes_of_eof _ n e
  factors m b n lhs _ _ _ := .of_eof (.pure lhs) (fun s => operation_of_eof rfl _ _ lhs)
    fun s => operations_of_eof rfl _ n lhs
  terms m b n lhs _ _ _ := .of_eof (.pure lhs) (fun s => operation_of_eof rfl _ _ lhs)
    fun s => operations_of_eof rfl _ n lhs
  exprs m n _ _ := by
    obtain ⟨f, hf⟩ := exists_commaSeparated_eq (Parser.expr m) n
    rw [hf]
    exact (inStep_assignment_zero C m).bind_of_zero
  properties m n _ _ := by
    obtain ⟨f, hf⟩ := exists_commaSeparated_eq (property (Parser.expr m)) n
    have hname : InStep 0 1 (nameOr .expectedPropertyName) (nameOr .expectedPropertyName) :=
      inStep_nameOr fun t => ⟨rfl, by simp, by simp⟩
    have hproperty : InStep 0 1 (property C.expr) (property (Parser.expr m)) := hname.bind_of_zero
    rw [hf]
    exact hproperty.bind_of_zero
  statement n _ := .of_eof inStep_expectedPrimary (fun s => C.anyStatement_of_eof)
    fun s => statement_of_eof n
  statements stop hstop m n _ _ := by
    have hends (s : TokenStream) (hs : s.next.kind = .eof) : stop s.next.kind = true := hs ▸ hstop
    exact .of_eof (.pure []) (fun s hs => itemUnless_of_stop _ _ (hends s hs))
      fun s hs => itemsUntil_of_stop _ n (hends s hs)

theorem iterate (C : Calls) {N : Nat} (hN : k < N) : Agree k (Calls.unfold^[N] C) := by
  induction k generalizing N with
  | zero =>
    obtain ⟨N, rfl⟩ := Nat.exists_eq_succ_of_ne_zero (Nat.ne_zero_of_lt hN)
    rw [Function.iterate_succ_apply']
    exact of_unfold _
  | succ k ih =>
    obtain ⟨N, rfl⟩ := Nat.exists_eq_succ_of_ne_zero (Nat.ne_zero_of_lt hN)
    rw [Function.iterate_succ_apply']
    exact (ih (by omega)).unfold

end Agree

/-- More rounds than there are tokens behind the next one read the program, whatever is called
behind them. -/
theorem program_iterate (C : Calls) {N : Nat} {last : Token} {us : List Token}
    (hlast : last.kind = .eof) (hN : us.length < N) :
    (unfold^[N] C).program (TokenStream.before last us) =
      Parser.program (TokenStream.before last us) := by
  have hstatements := (Agree.iterate C hN).statements (· = .eof) rfl us.length us.length
    (Nat.le_refl _) (Nat.le_refl _)
  have hprogram := hstatements.bind fun body => .pure (Program.mk body)
  rw [program_before]
  exact hprogram.eq_before hlast (Nat.le_refl _)

end Calls

end Parser

end ScopeScript
