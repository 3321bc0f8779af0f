import ScopeScript.Proofs.Syntax.Reading

/-!
# One token of lookahead

A parser reads some tokens and ends before the next one, with a result or an error, whatever comes
behind that token.  An error is on the line of one of these tokens, and the text that it says was
found is that of the same token.

`InStep k least m m'` says this of two parsers at once, on at most `k` tokens in front of the last
one: they read the same tokens and end alike, and have read at least `least` tokens if they succeed.
So it says also how far two parsers are the same that differ in their bounds only.  It holds of each
rule of the grammar with any two bounds of at least `k` (`inStep_statement`).
-/

namespace ScopeScript

/-- The text that an error says was found. -/
@[simp] def SyntaxError.Cause.found? : Cause → Option String
  | .unexpectedToken found _ | .expectedName found | .expectedPrimary found
  | .expectedPropertyName found | .badNumber found => some found
  | _ => none

/-- The error is about the token: it is on the line of the token, the text found is that of the
token, and a kind that was expected is another one. -/
structure SyntaxError.Reports (e : SyntaxError) (t : Token) : Prop where
  line : e.line = t.line
  found : ∀ text ∈ e.cause.found?, text = t.shown
  expected : ∀ text kind, e.cause = .unexpectedToken text kind →
    t.kind ≠ kind ∧ kind ∉ [.eof, .name, .number]

namespace TokenStream

variable {last last' : Token} {vs vs' : List Token}

/-- What comes next in front of more tokens does not depend on what is behind the first of them. -/
theorem next_before_append (h : (before last' vs').next = (before last vs).next)
    (us : List Token) : (before last' (us ++ vs')).next = (before last (us ++ vs)).next := by
  cases us with
  | nil => exact h
  | cons => rfl

theorem next_before_mem (us : List Token) :
    (before last (us ++ vs)).next ∈ us ++ [(before last vs).next] := by
  cases us with
  | nil => exact List.mem_singleton_self _
  | cons => exact List.mem_cons_self

end TokenStream

namespace Parser

open TokenStream

variable {α β : Type} {k j least least' : Nat} {t u : Token} {seen : List Token}
  {m m' n n' : Parser α} {f f' : α → Parser β}

/-- The end of a parser with the given result or error. -/
def ended (r : Except SyntaxError α) (s : TokenStream) :
    EStateM.Result SyntaxError TokenStream α :=
  match r with
  | .ok a => .ok a s
  | .error e => .error e s

/-- In front of at most `k` tokens of which these are the first, the parser reads them and ends
before `t`, whatever comes behind it. -/
def StopsAt (k : Nat) (m : Parser α) (read : List Token) (t : Token) (r : Except SyntaxError α) :
    Prop :=
  ∀ last vs, last.kind = .eof → (before last vs).next = t → (read ++ vs).length ≤ k →
    m (before last (read ++ vs)) = ended r (before last vs)

/-- Both parsers read these tokens and end before `t` alike; an error is about one of the tokens
read, or seen already, or `t`. -/
structure StopTogether (k least : Nat) (seen : List Token) (m m' : Parser α) (read : List Token)
    (t : Token) (r : Except SyntaxError α) : Prop where
  left : StopsAt k m read t r
  right : StopsAt k m' read t r
  least : ∀ a, r = .ok a → least ≤ read.length
  reports : ∀ e, r = .error e → ∃ u ∈ seen ++ (read ++ [t]), e.Reports u

/-- From the token `t` on the parsers are in step. -/
def InStepAt (k : Nat) (t : Token) (seen : List Token) (least : Nat) (m m' : Parser α) : Prop :=
  ∀ last us, last.kind = .eof → (before last us).next = t → us.length ≤ k →
    ∃ read vs r, us = read ++ vs ∧
      StopTogether k least seen m m' read (before last vs).next r

/-- In front of at most `k` tokens the parsers read the same and end alike, and have read at least
`least` tokens if they succeed. -/
def InStep (k least : Nat) (m m' : Parser α) : Prop := ∀ t seen, InStepAt k t seen least m m'

/-! ## Where parsers stop -/

section Stops

variable {read read' : List Token} {last : Token} {vs : List Token} {a : α} {e : SyntaxError}
  {r : Except SyntaxError α} {r' : Except SyntaxError β}

theorem StopsAt.fewer (h : StopsAt k m read t r) (hj : j ≤ k) : StopsAt j m read t r :=
  fun last vs hlast hnext hlength => h last vs hlast hnext (Nat.le_trans hlength hj)

/-- A parser that does the same from the first of the tokens on. -/
theorem StopsAt.of_eq (h : StopsAt k n read (before last vs).next r)
    (hmn : ∀ s, s.next = (before last (read ++ vs)).next → m s = n s) :
    StopsAt k m read (before last vs).next r := by
  intro last' vs' hlast' hnext hlength
  rw [hmn _ (next_before_append hnext read)]
  exact h last' vs' hlast' hnext hlength

theorem StopsAt.bind_error (h : StopsAt k m read t (.error e)) :
    StopsAt k (m >>= f) read t (.error e) :=
  fun last vs hlast hnext hlength => Parser.bind_error (h last vs hlast hnext hlength) f

/-- What is behind the tokens that the second parser reads is behind those that the first one reads,
too. -/
theorem StopsAt.bind (hm : StopsAt k m read (before last (read' ++ vs)).next (.ok a))
    (hf : StopsAt j (f a) read' (before last vs).next r') (hj : k ≤ j + read.length) :
    StopsAt k (m >>= f) (read ++ read') (before last vs).next r' := by
  intro last' vs' hlast' hnext hlength
  rw [List.append_assoc] at hlength ⊢
  have hmiddle : (before last' (read' ++ vs')).next = (before last (read' ++ vs)).next :=
    next_before_append hnext read'
  rw [bind_ok (hm last' (read' ++ vs') hlast' hmiddle hlength)]
  refine hf last' vs' hlast' hnext ?_
  rw [List.length_append] at hlength
  omega

theorem StopTogether.bind_error (h : StopTogether k least seen m m' read t (.error e)) :
    StopTogether k least' seen (m >>= f) (m' >>= f') read t (.error e) where
  left := h.left.bind_error
  right := h.right.bind_error
  least := nofun
  reports e' he := h.reports e' (congrArg _ (Except.error.inj he))

theorem StopTogether.bind
    (hm : StopTogether k least seen m m' read (before last (read' ++ vs)).next (.ok a))
    (hf : StopTogether (k - least) least' (t :: seen) (f a) (f' a) read' (before last vs).next r')
    (ht : t = (before last (read ++ (read' ++ vs))).next) :
    StopTogether k (least' + least) seen (m >>= f) (m' >>= f') (read ++ read')
      (before last vs).next r' := by
  have hread := hm.least a rfl
  have hj : k ≤ k - least + read.length := by omega
  refine ⟨hm.left.bind hf.left hj, hm.right.bind hf.right hj, fun b hb => ?_, fun e he => ?_⟩
  · have := hf.least b hb
    rw [List.length_append]
    omega
  · obtain ⟨u, hu, hreports⟩ := hf.reports e he
    have hmem : t ∈ read ++ read' ++ [(before last vs).next] := by
      rw [ht, ← List.append_assoc]
      exact next_before_mem _
    refine ⟨u, ?_, hreports⟩
    simp only [List.cons_append, List.append_assoc, List.mem_cons, List.mem_append] at hu hmem ⊢
    obtain rfl | hu | hu := hu
    · exact .inr hmem
    · exact .inl hu
    · exact .inr (.inr hu)

end Stops

/-! ## Rules -/

theorem InStepAt.pure (a : α) : InStepAt k t seen 0 (pure a) (pure a) :=
  fun _ us _ _ _ => ⟨[], us, .ok a, rfl, fun _ _ _ _ _ => rfl, fun _ _ _ _ _ => rfl,
    fun _ _ => Nat.le_refl _, nofun⟩

theorem InStepAt.throw {e : SyntaxError} (hu : u ∈ t :: seen) (he : e.Reports u) :
    InStepAt k t seen least (throw e : Parser α) (throw e) := by
  intro last us _ hnext _
  refine ⟨[], us, .error e, rfl, fun _ _ _ _ _ => rfl, fun _ _ _ _ _ => rfl, nofun, ?_⟩
  rintro _ ⟨⟩
  rw [hnext]
  exact ⟨u, by simpa [or_comm] using hu, he⟩

/-- Parsers that do the same from the token on. -/
theorem InStepAt.of_eq (h : InStepAt k t seen least n n') (hm : ∀ s, s.next = t → m s = n s)
    (hm' : ∀ s, s.next = t → m' s = n' s) : InStepAt k t seen least m m' := by
  intro last us hlast hnext hus
  obtain ⟨read, vs, r, rfl, hstop⟩ := h last us hlast hnext hus
  rw [← hnext] at hm hm'
  exact ⟨read, vs, r, rfl, hstop.left.of_eq hm, hstop.right.of_eq hm', hstop.least, hstop.reports⟩

/-- Fewer tokens, and fewer of them to be read. -/
theorem InStepAt.weaken (h : InStepAt k t seen least m m') (hj : j ≤ k) (hleast : least' ≤ least) :
    InStepAt j t seen least' m m' := by
  intro last us hlast hnext hus
  obtain ⟨read, vs, r, rfl, hstop⟩ := h last us hlast hnext (Nat.le_trans hus hj)
  exact ⟨read, vs, r, rfl, hstop.left.fewer hj, hstop.right.fewer hj,
    fun a ha => Nat.le_trans hleast (hstop.least a ha), hstop.reports⟩

/-- One parser after another.  The second one has so many tokens fewer in front of it as the first
one reads at least, and the token that the first one starts at has been seen. -/
theorem InStepAt.bind (hm : InStepAt k t seen least m m')
    (hf : ∀ a u, InStepAt (k - least) u (t :: seen) least' (f a) (f' a)) :
    InStepAt k t seen (least' + least) (m >>= f) (m' >>= f') := by
  intro last us hlast hnext hus
  obtain ⟨read, vs, r, rfl, hstop⟩ := hm last us hlast hnext hus
  cases r with
  | error e => exact ⟨read, vs, .error e, rfl, hstop.bind_error⟩
  | ok a =>
    have hread := hstop.least a rfl
    have hvs : vs.length ≤ k - least := by
      rw [List.length_append] at hus
      omega
    obtain ⟨read', vs, r, rfl, hstop'⟩ := hf a _ last vs hlast rfl hvs
    exact ⟨read ++ read', vs, r, (List.append_assoc _ _ _).symm, hstop.bind hstop' hnext.symm⟩

theorem InStep.bind (hm : InStep k least m m')
    (hf : ∀ a, InStep (k - least) least' (f a) (f' a)) :
    InStep k (least' + least) (m >>= f) (m' >>= f') :=
  fun t seen => (hm t seen).bind fun a u => hf a u _

theorem InStep.pure (a : α) : InStep k 0 (pure a : Parser α) (pure a) := fun _ _ => .pure a

theorem InStepAt.any (h : InStepAt k t seen least m m') : InStepAt k t seen 0 m m' :=
  h.weaken (Nat.le_refl _) (Nat.zero_le _)

theorem InStep.any (h : InStep k least m m') : InStep k 0 m m' := fun t seen => (h t seen).any

theorem InStep.fewer (h : InStep k least m m') (hj : j ≤ k) : InStep j least m m' :=
  fun t seen => (h t seen).weaken hj (Nat.le_refl _)

/-! ## Single tokens -/

theorem InStepAt.peek {f f' : Token → Parser β} (h : InStepAt k t seen least (f t) (f' t)) :
    InStepAt k t seen least (peek >>= f) (peek >>= f') := by
  refine h.of_eq ?_ ?_
  · rintro s rfl
    rfl
  · rintro s rfl
    rfl

theorem InStepAt.peekKind {f f' : Token.Kind → Parser β}
    (h : InStepAt k t seen least (f t.kind) (f' t.kind)) :
    InStepAt k t seen least (peekKind >>= f) (peekKind >>= f') := by
  refine h.of_eq ?_ ?_
  · rintro s rfl
    rfl
  · rintro s rfl
    rfl

/-- Reading a token that is no `eof`. -/
theorem InStepAt.advance {f f' : Token → Parser β} (ht : t.kind ≠ .eof)
    (hf : ∀ u, InStepAt (k - 1) u (t :: seen) least (f t) (f' t)) :
    InStepAt k t seen (least + 1) (Parser.advance >>= f) (Parser.advance >>= f') := by
  have hstep : InStepAt k t seen 1 Parser.advance Parser.advance := by
    intro last us hlast hnext hus
    cases us with
    | nil =>
      rw [← hnext] at ht
      exact absurd hlast ht
    | cons t' us =>
      obtain rfl : t' = t := hnext
      refine ⟨[t'], us, .ok t', rfl, ?_, ?_, fun _ _ => Nat.le_refl _, nofun⟩
      · exact fun _ _ _ _ _ => advance_before_cons
      · exact fun _ _ _ _ _ => advance_before_cons
  refine (hstep.bind fun _ u => hf u).of_eq ?_ ?_
  · rintro s rfl
    rfl
  · rintro s rfl
    rfl

theorem InStepAt.skip {f f' : Token → Parser β} (ht : t.kind ≠ .eof)
    (hf : ∀ u, InStepAt (k - 1) u (t :: seen) 0 (f t) (f' t)) :
    InStepAt k t seen 0 (Parser.advance >>= f) (Parser.advance >>= f') :=
  (InStepAt.advance ht hf).any

theorem InStepAt.failAtNext {cause : String → SyntaxError.Cause}
    (h : SyntaxError.Reports ⟨t.line, cause t.shown⟩ t) :
    InStepAt k t seen least (failAtNext cause : Parser α) (failAtNext cause) :=
  .peek (.throw List.mem_cons_self h)

theorem inStep_accept {kind : Token.Kind} (hkind : kind ≠ .eof) :
    InStep k 0 (accept kind) (accept kind) := by
  refine fun t seen => .peekKind ?_
  by_cases ht : t.kind = kind
  · rw [if_pos ht]
    exact .skip (ht ▸ hkind) fun u => .pure true
  · rw [if_neg ht]
    exact .pure false

theorem inStep_expect {kind : Token.Kind} (hkind : kind ∉ [.eof, .name, .number]) :
    InStep k 1 (expect kind) (expect kind) := by
  refine fun t seen => .peekKind ?_
  by_cases ht : t.kind = kind
  · have heof : t.kind ≠ .eof := by
      rintro heof
      exact hkind (by simp [← ht, heof])
    rw [if_pos ht]
    exact .advance heof fun u => .pure ()
  · rw [if_neg ht]
    refine .failAtNext ⟨rfl, ?_, ?_⟩
    · simp
    · rintro text kind' ⟨⟩
      exact ⟨ht, hkind⟩

theorem inStep_nameOr {cause : String → SyntaxError.Cause}
    (hcause : ∀ t : Token, SyntaxError.Reports ⟨t.line, cause t.shown⟩ t) :
    InStep k 1 (nameOr cause) (nameOr cause) := by
  refine fun t seen => .peekKind ?_
  by_cases ht : t.kind = .name
  · rw [if_pos ht]
    have heof : t.kind ≠ .eof := by simp [ht]
    exact .advance heof fun u => .pure _
  · rw [if_neg ht]
    exact .failAtNext (hcause t)

/-! ## Rounds of loops

A loop with a bound is one round of it, and then the loop with the next smaller bound.  What stands
for the rest of the loop is a parameter here. -/

/-- The first item of a list, and `rest` behind a comma. -/
def separated (item : Parser α) (rest : Parser (List α)) : Parser (List α) := do
  let first ← item
  if ← accept .comma then return first :: (← rest) else return [first]

/-- `items? close` -/
def enclosed (close : Token.Kind) (items : Parser (List α)) : Parser (List α) := do
  let items ← if (← peekKind) = close then pure [] else items
  expect close
  return items

/-- The first operation behind `lhs`, and `rest` behind it. -/
def operation (operator? : Token.Kind → Option Operator) (operand : Parser Expr)
    (rest : Expr → Parser Expr) (lhs : Expr) : Parser Expr := do
  match operator? (← peekKind) with
  | none => return lhs
  | some operator =>
    let _ ← advance
    let rhs ← operand
    rest (.binary operator lhs rhs)

/-- The first item up to a token where the items stop, and `rest` behind it. -/
def itemUnless (stop : Token.Kind → Bool) (item : Parser α) (rest : Parser (List α)) :
    Parser (List α) := do
  if stop (← peekKind) then return []
  else
    let first ← item
    return first :: (← rest)

/-- The first suffix behind `e`, and `rest` behind it. -/
def suffix (expr : Parser Expr) (arguments : Parser (List Expr)) (rest : Expr → Parser Expr)
    (e : Expr) : Parser Expr := do
  match (← peekKind) with
  | .dot =>
    let _ ← advance
    let property ← propertyName (primary expr)
    rest (.dot e property)
  | .leftBracket =>
    let _ ← advance
    let key ← expr
    expect .rightBracket
    rest (.index e key)
  | .leftParen =>
    let args ← arguments
    rest (.call e args)
  | _ => return e

section Rounds

variable {operator? : Token.Kind → Option Operator} {operand expr : Parser Expr} {e : Expr}
  {stop : Token.Kind → Bool} {item : Parser α} {n : Nat}

theorem commaSeparated_succ :
    commaSeparated item (n + 1) = separated item (commaSeparated item n) := rfl

theorem operations_succ : operations operator? operand (n + 1) e =
    operation operator? operand (operations operator? operand n) e := rfl

theorem itemsUntil_succ :
    itemsUntil stop item (n + 1) = itemUnless stop item (itemsUntil stop item n) := rfl

theorem suffixes_succ :
    suffixes expr (n + 1) e = suffix expr (arguments expr n) (suffixes expr n) e := rfl

end Rounds

/-! ## In front of no tokens -/

/-- In front of no tokens it is enough to know what the parsers do at an `eof`. -/
theorem InStep.of_eof (h : InStep 0 least n n') (hm : ∀ s, s.next.kind = .eof → m s = n s)
    (hm' : ∀ s, s.next.kind = .eof → m' s = n' s) : InStep 0 least m m' := by
  intro t seen last us hlast hnext hus
  obtain rfl := List.eq_nil_of_length_eq_zero (Nat.le_zero.1 hus)
  obtain rfl : last = t := hnext
  have heof {s : TokenStream} (hs : s.next = last) : s.next.kind = .eof := hs ▸ hlast
  exact (h last seen).of_eq (fun s hs => hm s (heof hs)) (fun s hs => hm' s (heof hs)) last []
    hlast rfl hus

/-- What follows a parser that has to read a token does not matter. -/
theorem InStep.bind_of_zero (hm : InStep 0 1 m m') : InStep 0 least (m >>= f) (m' >>= f') := by
  intro t seen last us hlast hnext hus
  obtain ⟨read, vs, r, rfl, hstop⟩ := hm t seen last us hlast hnext hus
  cases r with
  | error e => exact ⟨read, vs, .error e, rfl, hstop.bind_error⟩
  | ok a =>
    have hread := hstop.least a rfl
    rw [List.length_append] at hus
    omega

theorem operation_of_eof {operator? : Token.Kind → Option Operator}
    (hoperator : operator? .eof = none) (operand : Parser Expr) (rest : Expr → Parser Expr)
    (lhs : Expr) {s : TokenStream} (hs : s.next.kind = .eof) :
    operation operator? operand rest lhs s = .ok lhs s := by
  rw [operation, bind_ok (peekKind_apply s), hs, hoperator]
  rfl

theorem operations_of_eof {operator? : Token.Kind → Option Operator}
    (hoperator : operator? .eof = none) (operand : Parser Expr) (n : Nat) (lhs : Expr)
    {s : TokenStream} (hs : s.next.kind = .eof) :
    operations operator? operand n lhs s = .ok lhs s := by
  cases n with
  | zero => rfl
  | succ n =>
    rw [operations_succ]
    exact operation_of_eof hoperator operand _ lhs hs

theorem suffix_of_eof (expr : Parser Expr) (arguments : Parser (List Expr))
    (rest : Expr → Parser Expr) (e : Expr) {s : TokenStream} (hs : s.next.kind = .eof) :
    suffix expr arguments rest e s = .ok e s := by
  rw [suffix, bind_ok (peekKind_apply s), hs]
  rfl

theorem suffixes_of_eof (expr : Parser Expr) (n : Nat) (e : Expr) {s : TokenStream}
    (hs : s.next.kind = .eof) : suffixes expr n e s = .ok e s := by
  cases n with
  | zero => rfl
  | succ n =>
    rw [suffixes_succ]
    exact suffix_of_eof expr _ _ e hs

theorem itemUnless_of_stop {stop : Token.Kind → Bool} (item : Parser α)
    (rest : Parser (List α)) {s : TokenStream} (hs : stop s.next.kind = true) :
    itemUnless stop item rest s = .ok [] s := by
  rw [itemUnless, bind_ok (peekKind_apply s), if_pos hs]
  rfl

theorem itemsUntil_of_stop {stop : Token.Kind → Bool} (item : Parser α) (n : Nat)
    {s : TokenStream} (hs : stop s.next.kind = true) : itemsUntil stop item n s = .ok [] s := by
  cases n with
  | zero => rfl
  | succ n =>
    rw [itemsUntil_succ]
    exact itemUnless_of_stop item _ hs

theorem expr_of_eof (n : Nat) {s : TokenStream} (hs : s.next.kind = .eof) :
    expr n s = failAtNext .expectedPrimary s := by
  obtain ⟨⟨kind, text, line⟩, rest⟩ := s
  obtain rfl : kind = .eof := hs
  cases n with
  | zero => rfl
  | succ n => rfl

theorem statement_of_eof (n : Nat) {s : TokenStream} (hs : s.next.kind = .eof) :
    statement n s = failAtNext .expectedPrimary s := by
  obtain ⟨⟨kind, text, line⟩, rest⟩ := s
  obtain rfl : kind = .eof := hs
  cases n with
  | zero => rfl
  | succ n => rfl

/-! ## Lists and chains -/

theorem inStep_separated {item item' : Parser α} {rest rest' : Parser (List α)}
    (hitem : InStep k 1 item item') (hrest : InStep (k - 1) 1 rest rest') :
    InStep k 1 (separated item rest) (separated item' rest') := by
  refine hitem.bind fun first => (inStep_accept (by decide)).bind fun b => ?_
  cases b with
  | true => exact hrest.any.bind fun rest => .pure _
  | false => exact .pure _

theorem inStep_enclosed {close : Token.Kind} (hclose : close ∉ [.eof, .name, .number])
    {items items' : Parser (List α)} (hitems : InStep k 1 items items') :
    InStep k 1 (enclosed close items) (enclosed close items') := by
  have hend (items : List α) : InStep k 1 (expect close >>= fun _ => pure items)
      (expect close >>= fun _ => pure items) :=
    (inStep_expect hclose).bind fun _ => .pure items
  refine fun t seen => .peekKind ?_
  by_cases ht : t.kind = close
  · simp only [if_pos ht]
    exact (InStep.pure []).bind hend t seen
  · simp only [if_neg ht]
    exact hitems.any.bind hend t seen

theorem inStep_operation {operator? : Token.Kind → Option Operator}
    (hoperator : operator? .eof = none) {operand operand' : Parser Expr}
    {rest rest' : Expr → Parser Expr} (hoperand : InStep (k - 1) 1 operand operand')
    (hrest : ∀ e, InStep (k - 1) 0 (rest e) (rest' e)) (lhs : Expr) :
    InStep k 0 (operation operator? operand rest lhs) (operation operator? operand' rest' lhs) := by
  refine fun t seen => .peekKind ?_
  cases ht : operator? t.kind with
  | none => exact .pure lhs
  | some operator =>
    have heof : t.kind ≠ .eof := by
      rintro heof
      rw [heof, hoperator] at ht
      cases ht
    have hlater : InStep (k - 1) 0 (operand >>= fun rhs => rest (.binary operator lhs rhs))
        (operand' >>= fun rhs => rest' (.binary operator lhs rhs)) :=
      hoperand.any.bind fun rhs => hrest _
    exact .skip heof fun u => hlater u _

theorem inStep_itemUnless {stop : Token.Kind → Bool} {item item' : Parser α}
    {rest rest' : Parser (List α)} (hitem : InStep k 1 item item')
    (hrest : InStep (k - 1) 0 rest rest') :
    InStep k 0 (itemUnless stop item rest) (itemUnless stop item' rest') := by
  refine fun t seen => .peekKind ?_
  by_cases ht : stop t.kind = true
  · simp only [if_pos ht]
    exact .pure []
  · have hlater (first : α) : InStep (k - 1) 0 (rest >>= fun rest => pure (first :: rest))
        (rest' >>= fun rest => pure (first :: rest)) :=
      hrest.bind fun rest => .pure _
    simp only [if_neg ht]
    exact InStepAt.any ((hitem t seen).bind fun first u => hlater first u _)

/-- Every list starts with an item, whatever its bound. -/
theorem exists_commaSeparated_eq (item : Parser α) (n : Nat) :
    ∃ f, commaSeparated item n = item >>= f := by
  cases n with
  | zero => exact ⟨_, rfl⟩
  | succ n => exact ⟨_, rfl⟩

section Loops

variable {n n' : Nat} (hn : k ≤ n) (hn' : k ≤ n')
include hn hn'

theorem inStep_commaSeparated {item item' : Parser α} (hitem : InStep k 1 item item') :
    InStep k 1 (commaSeparated item n) (commaSeparated item' n') := by
  induction k generalizing n n' with
  | zero =>
    obtain ⟨f, hf⟩ := exists_commaSeparated_eq item n
    obtain ⟨f', hf'⟩ := exists_commaSeparated_eq item' n'
    rw [hf, hf']
    exact hitem.bind_of_zero
  | succ k ih =>
    obtain ⟨n, rfl⟩ := Nat.exists_eq_succ_of_ne_zero (Nat.ne_zero_of_lt hn)
    obtain ⟨n', rfl⟩ := Nat.exists_eq_succ_of_ne_zero (Nat.ne_zero_of_lt hn')
    rw [commaSeparated_succ, commaSeparated_succ]
    exact inStep_separated hitem (ih (by omega) (by omega) (hitem.fewer (Nat.le_succ k)))

theorem inStep_operations {operator? : Token.Kind → Option Operator}
    (hoperator : operator? .eof = none) {operand operand' : Parser Expr}
    (hoperand : InStep k 1 operand operand') (lhs : Expr) :
    InStep k 0 (operations operator? operand n lhs) (operations operator? operand' n' lhs) := by
  induction k generalizing n n' lhs with
  | zero =>
    exact .of_eof (.pure lhs) (fun _ => operations_of_eof hoperator operand n lhs)
      fun _ => operations_of_eof hoperator operand' n' lhs
  | succ k ih =>
    obtain ⟨n, rfl⟩ := Nat.exists_eq_succ_of_ne_zero (Nat.ne_zero_of_lt hn)
    obtain ⟨n', rfl⟩ := Nat.exists_eq_succ_of_ne_zero (Nat.ne_zero_of_lt hn')
    have hlater : InStep k 1 operand operand' := hoperand.fewer (Nat.le_succ k)
    have hrest (e : Expr) : InStep k 0 (operations operator? operand n e)
        (operations operator? operand' n' e) :=
      ih (by omega) (by omega) hlater e
    rw [operations_succ, operations_succ]
    exact inStep_operation (k := k + 1) hoperator hlater hrest lhs

end Loops

theorem inStep_itemsUntil_zero {stop : Token.Kind → Bool} (hstop : stop .eof = true)
    (item item' : Parser α) (n n' : Nat) :
    InStep 0 0 (itemsUntil stop item n) (itemsUntil stop item' n') := by
  have hends (s : TokenStream) (hs : s.next.kind = .eof) : stop s.next.kind = true := hs ▸ hstop
  exact .of_eof (.pure []) (fun s hs => itemsUntil_of_stop item n (hends s hs))
    fun s hs => itemsUntil_of_stop item' n' (hends s hs)

/-- The bounds on the number of items may be small if they are the same. -/
theorem inStep_itemsUntil {stop : Token.Kind → Bool} (hstop : stop .eof = true)
    {item item' : Parser α} {n n' : Nat} (hn : n = n' ∨ k ≤ n ∧ k ≤ n')
    (hitem : InStep k 1 item item') :
    InStep k 0 (itemsUntil stop item n) (itemsUntil stop item' n') := by
  induction n generalizing n' k with
  | zero =>
    -- The bounds are the same, or the first one says that there are no tokens.
    obtain rfl | rfl : n' = 0 ∨ k = 0 := by omega
    · exact .pure []
    · exact inStep_itemsUntil_zero hstop item item' 0 n'
  | succ n ih =>
    cases n' with
    | zero =>
      obtain rfl : k = 0 := by omega
      exact inStep_itemsUntil_zero hstop item item' (n + 1) 0
    | succ n' =>
      rw [itemsUntil_succ, itemsUntil_succ]
      exact inStep_itemUnless hitem (ih (by omega) (hitem.fewer (Nat.sub_le k 1)))

/-! ## Expressions -/

section Expressions

variable {expr expr' : Parser Expr}

/-- What stands behind a token of its own is in front of fewer tokens. -/
theorem inStep_primary (hexpr : InStep (k - 1) 1 expr expr') :
    InStep k 1 (primary expr) (primary expr') := by
  refine fun t seen => .peekKind ?_
  cases ht : t.kind with
  | name =>
    have heof : t.kind ≠ .eof := by simp [ht]
    exact .advance heof fun u => .pure _
  | number =>
    have heof : t.kind ≠ .eof := by simp [ht]
    refine .advance heof fun u => ?_
    cases Number.parse? t.text with
    | some x => exact .pure _
    | none =>
      refine .throw (u := t) (by simp) ⟨rfl, ?_, by simp⟩
      simp [Token.shown, ht]
  | leftParen =>
    have heof : t.kind ≠ .eof := by simp [ht]
    have hrest : InStep (k - 1) 0 (expr >>= fun e => expect .rightParen >>= fun _ => pure e)
        (expr' >>= fun e => expect .rightParen >>= fun _ => pure e) :=
      hexpr.any.bind fun e => ((inStep_expect (by decide)).bind fun _ => .pure e).any
    exact .advance heof fun u => hrest u _
  | _ => exact .failAtNext ⟨rfl, by simp, by simp⟩

theorem inStep_propertyName (hexpr : InStep (k - 1) 1 expr expr') :
    InStep k 1 (propertyName (primary expr)) (propertyName (primary expr')) := by
  refine fun t seen => .peek ((inStep_primary hexpr t seen).bind fun e u => ?_)
  cases e with
  | name x => exact .pure _
  | _ => exact .throw (u := t) (by simp) ⟨rfl, by simp, by simp⟩

theorem inStep_suffix {arguments arguments' : Parser (List Expr)} {rest rest' : Expr → Parser Expr}
    (hexpr : InStep (k - 1) 1 expr expr') (harguments : InStep k 1 arguments arguments')
    (hrest : ∀ e, InStep (k - 1) 0 (rest e) (rest' e)) (e : Expr) :
    InStep k 0 (suffix expr arguments rest e) (suffix expr' arguments' rest' e) := by
  refine fun t seen => .peekKind ?_
  cases ht : t.kind with
  | dot =>
    have heof : t.kind ≠ .eof := by simp [ht]
    have hproperty : InStep (k - 1) 1 (propertyName (primary expr))
        (propertyName (primary expr')) :=
      inStep_propertyName (hexpr.fewer (Nat.sub_le _ 1))
    have hlater := hproperty.any.bind fun property => hrest (.dot e property)
    exact .skip heof fun u => hlater u _
  | leftBracket =>
    have heof : t.kind ≠ .eof := by simp [ht]
    have hclose (key : Expr) : InStep (k - 1) 0
        (expect .rightBracket >>= fun _ => rest (.index e key))
        (expect .rightBracket >>= fun _ => rest' (.index e key)) :=
      (inStep_expect (by decide)).any.bind fun _ => hrest _
    have hlater := hexpr.any.bind hclose
    exact .skip heof fun u => hlater u _
  | leftParen => exact (harguments.bind fun args => hrest (.call e args)).any t seen
  | _ => exact .pure e

section Bounds

variable {n n' : Nat}

theorem inStep_commaSeparatedUntil {close : Token.Kind} (hclose : close ∉ [.eof, .name, .number])
    {item item' : Parser α} (hn : k ≤ n) (hn' : k ≤ n') (hitem : InStep k 1 item item') :
    InStep k 1 (commaSeparatedUntil close item n) (commaSeparatedUntil close item' n') :=
  inStep_enclosed hclose (inStep_commaSeparated hn hn' hitem)

theorem inStep_arguments (hn : k ≤ n + 1) (hn' : k ≤ n' + 1)
    (hexpr : InStep (k - 1) 1 expr expr') :
    InStep k 1 (arguments expr n) (arguments expr' n') := by
  refine (inStep_expect (by decide)).bind fun _ => ?_
  exact (inStep_commaSeparatedUntil (by decide) (by omega) (by omega) hexpr).any

theorem inStep_suffixes (hn : k ≤ n) (hn' : k ≤ n') (hexpr : InStep (k - 1) 1 expr expr')
    (e : Expr) : InStep k 0 (suffixes expr n e) (suffixes expr' n' e) := by
  induction k generalizing n n' e with
  | zero =>
    exact .of_eof (.pure e) (fun _ => suffixes_of_eof expr n e) fun _ => suffixes_of_eof expr' n' e
  | succ k ih =>
    obtain ⟨n, rfl⟩ := Nat.exists_eq_succ_of_ne_zero (Nat.ne_zero_of_lt hn)
    obtain ⟨n', rfl⟩ := Nat.exists_eq_succ_of_ne_zero (Nat.ne_zero_of_lt hn')
    -- Each suffix takes a token, and one of the bound.
    rw [suffixes_succ, suffixes_succ]
    exact inStep_suffix hexpr (inStep_arguments hn hn' hexpr)
      (ih (by omega) (by omega) (hexpr.fewer (Nat.sub_le k 1))) e

theorem inStep_chain (hn : k ≤ n) (hn' : k ≤ n') (hexpr : InStep (k - 1) 1 expr expr') :
    InStep k 1 (chain expr n) (chain expr' n') :=
  (inStep_primary hexpr).bind fun e => (inStep_suffixes hn hn' hexpr e).fewer (Nat.sub_le k 1)

theorem inStep_product (hn : k ≤ n) (hn' : k ≤ n') (hexpr : InStep (k - 1) 1 expr expr') :
    InStep k 1 (product expr n) (product expr' n') := by
  have hchain := inStep_chain hn hn' hexpr
  exact hchain.bind fun e => (inStep_operations hn hn' rfl hchain e).fewer (Nat.sub_le k 1)

theorem inStep_sum (hn : k ≤ n) (hn' : k ≤ n') (hexpr : InStep (k - 1) 1 expr expr') :
    InStep k 1 (sum expr n) (sum expr' n') := by
  have hproduct := inStep_product hn hn' hexpr
  exact hproduct.bind fun e => (inStep_operations hn hn' rfl hproduct e).fewer (Nat.sub_le k 1)

theorem inStep_property (hexpr : InStep (k - 1) 1 expr expr') :
    InStep k 1 (property expr) (property expr') := by
  have hname : InStep k 1 (nameOr .expectedPropertyName) (nameOr .expectedPropertyName) :=
    inStep_nameOr fun t => ⟨rfl, by simp, by simp⟩
  refine hname.bind fun key => (inStep_accept (by decide)).bind fun b => ?_
  cases b with
  | true => exact hexpr.any.bind fun e => .pure _
  | false => exact .pure _

theorem inStep_operand (hn : k ≤ n) (hn' : k ≤ n') (hexpr : InStep (k - 1) 1 expr expr') :
    InStep k 1 (operand expr n) (operand expr' n') := by
  refine (inStep_accept (by decide)).bind fun b => ?_
  cases b with
  | true =>
    have hproperties : InStep k 1 (commaSeparatedUntil .rightCurly (property expr) n)
        (commaSeparatedUntil .rightCurly (property expr') n') :=
      inStep_commaSeparatedUntil (by decide) hn hn' (inStep_property hexpr)
    exact hproperties.bind fun properties =>
      (inStep_suffixes hn hn' hexpr _).fewer (Nat.sub_le k 1)
  | false => exact inStep_sum hn hn' hexpr

theorem inStep_assignment (hn : k ≤ n) (hn' : k ≤ n') (hexpr : InStep (k - 1) 1 expr expr') :
    InStep k 1 (assignment expr n) (assignment expr' n') := by
  refine (inStep_operand hn hn' hexpr).bind fun target => ?_
  refine (inStep_accept (by decide)).bind fun b => ?_
  cases b with
  | true => exact hexpr.any.bind fun value => .pure _
  | false => exact .pure target

end Bounds

end Expressions

theorem inStep_expectedPrimary :
    InStep k least (failAtNext .expectedPrimary : Parser α) (failAtNext .expectedPrimary) :=
  fun _ _ => .failAtNext ⟨rfl, by simp, by simp⟩

theorem inStep_expr {n n' : Nat} (hn : k ≤ n) (hn' : k ≤ n') : InStep k 1 (expr n) (expr n') := by
  induction k generalizing n n' with
  | zero =>
    exact .of_eof inStep_expectedPrimary (fun _ => expr_of_eof n) fun _ => expr_of_eof n'
  | succ k ih =>
    obtain ⟨n, rfl⟩ := Nat.exists_eq_succ_of_ne_zero (Nat.ne_zero_of_lt hn)
    obtain ⟨n', rfl⟩ := Nat.exists_eq_succ_of_ne_zero (Nat.ne_zero_of_lt hn')
    exact inStep_assignment hn hn' (ih (by omega) (by omega))

/-! ## Statements -/

section Statements

variable {expr expr' : Parser Expr}

theorem inStep_name : InStep k 1 (nameOr .expectedName) (nameOr .expectedName) :=
  inStep_nameOr fun _ => ⟨rfl, by simp, by simp⟩

/-- An error about a missing value is on the line of the semicolon. -/
theorem inStepAt_declaration (ht : t.kind ≠ .eof) (hexpr : InStep (k - 1) 1 expr expr') :
    InStepAt k t seen 1 (declaration expr) (declaration expr') := by
  refine .advance ht fun u => (inStep_name u (t :: seen)).any.bind fun name v => .peek ?_
  by_cases hv : v.kind = .semicolon
  · have heof : v.kind ≠ .eof := by simp [hv]
    simp only [if_pos hv]
    refine .skip heof fun w => ?_
    by_cases hconstant : t.kind = .constWord
    · simp only [if_pos hconstant]
      exact .throw (u := v) (by simp) ⟨rfl, by simp, by simp⟩
    · simp only [if_neg hconstant]
      exact .pure _
  · have hrest : InStep (k - 1) 0
        (expect .equal >>= fun _ => expr >>= fun init => expect .semicolon >>= fun _ =>
          pure (Stmt.declare (t.kind = .constWord) name (some init)))
        (expect .equal >>= fun _ => expr' >>= fun init => expect .semicolon >>= fun _ =>
          pure (Stmt.declare (t.kind = .constWord) name (some init))) :=
      (inStep_expect (by decide)).any.bind fun _ => hexpr.any.bind fun init =>
        (inStep_expect (by decide)).any.bind fun _ => .pure _
    simp only [if_neg hv]
    exact hrest v _

/-- An error about a parameter is on the line of the parenthesis in front of all of them. -/
theorem inStepAt_definition {statement statement' : Parser Stmt} {n n' : Nat} (ht : t.kind ≠ .eof)
    (hn : k ≤ n + 1) (hn' : k ≤ n' + 1) (hexpr : InStep (k - 1) 1 expr expr')
    (hstatement : InStep (k - 1) 1 statement statement') :
    InStepAt k t seen 1 (definition expr statement n) (definition expr' statement' n') := by
  refine .advance ht fun u => (inStep_name u (t :: seen)).any.bind fun name v => .peek ?_
  have harguments : InStep (k - 1) 0 (arguments expr n) (arguments expr' n') :=
    (inStep_arguments (by omega) (by omega) (hexpr.fewer (Nat.sub_le _ 1))).any
  -- The token `v` has been seen when the arguments turn out not to be parameters.
  refine (harguments v (u :: t :: seen)).bind fun args w => ?_
  cases parameters? args with
  | none => exact .throw (u := v) (by simp) ⟨rfl, by simp, by simp⟩
  | some params =>
    have hbody : InStep (k - 1) 0
        (itemsUntil (fun kind => kind = .rightCurly ∨ kind = .eof) statement n)
        (itemsUntil (fun kind => kind = .rightCurly ∨ kind = .eof) statement' n') :=
      inStep_itemsUntil (by decide) (.inr ⟨by omega, by omega⟩) hstatement
    have hend (body : List Stmt) : InStep (k - 1) 0
        (expect .rightCurly >>= fun _ => pure (Stmt.define name params body))
        (expect .rightCurly >>= fun _ => pure (Stmt.define name params body)) :=
      (inStep_expect (by decide)).any.bind fun _ => .pure _
    exact (inStep_expect (by decide)).any.bind (fun _ => hbody.bind hend) w _

theorem inStep_expressionStatement (hexpr : InStep k 1 expr expr') :
    InStep k 1 (expressionStatement expr) (expressionStatement expr') :=
  hexpr.bind fun e => (inStep_accept (by decide)).bind fun _ => .pure _

end Statements

theorem inStep_statement {n n' : Nat} (hn : k ≤ n) (hn' : k ≤ n') :
    InStep k 1 (statement n) (statement n') := by
  induction k generalizing n n' with
  | zero =>
    exact .of_eof inStep_expectedPrimary (fun _ => statement_of_eof n) fun _ => statement_of_eof n'
  | succ k ih =>
    obtain ⟨n, rfl⟩ := Nat.exists_eq_succ_of_ne_zero (Nat.ne_zero_of_lt hn)
    obtain ⟨n', rfl⟩ := Nat.exists_eq_succ_of_ne_zero (Nat.ne_zero_of_lt hn')
    have hexpr : InStep k 1 (expr n) (expr n') := inStep_expr (by omega) (by omega)
    refine fun t seen => .peekKind ?_
    cases ht : t.kind with
    | letWord | constWord => exact inStepAt_declaration (by simp [ht]) hexpr
    | fnWord =>
      exact inStepAt_definition (by simp [ht]) hn hn' hexpr (ih (by omega) (by omega))
    | _ => exact inStep_expressionStatement (inStep_expr hn hn') t seen

end Parser

end ScopeScript
