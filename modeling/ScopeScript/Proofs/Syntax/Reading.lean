import ScopeScript.Proofs.Syntax.Derivation

/-!
# Reading from a list of tokens

A stream of tokens whose last one is an `eof` is given by the tokens before that one
(`TokenStream.before`).  The steps that parsers are made of work on these lists: they look at the
head and leave the tail.
-/

namespace ScopeScript

/-- The stream of the tokens `us` with `last` behind them. -/
def TokenStream.before (last : Token) : List Token → TokenStream
  | [] => ⟨last, []⟩
  | t :: us => ⟨t, us ++ [last]⟩

theorem TokenStream.ofList_append {last : Token} (hlast : last.kind = .eof) (us : List Token) :
    ofList (us ++ [last]) = before last us := by
  cases us with
  | nil => simp [ofList, before, hlast]
  | cons t us => simp [ofList, before, hlast]

namespace Parser

open Grammar TokenStream

variable {α β : Type} {last t : Token} {us : List Token} {kind : Token.Kind}
  {cause : String → SyntaxError.Cause}

/-! ## Steps one after the other -/

theorem bind_ok {m : Parser α} {s s' : TokenStream} {x : α} (h : m s = .ok x s')
    (f : α → Parser β) : (m >>= f) s = f x s' := by
  change EStateM.bind m f s = f x s'
  rw [EStateM.bind, h]

theorem bind_error {m : Parser α} {s s' : TokenStream} {e : SyntaxError} (h : m s = .error e s')
    (f : α → Parser β) : (m >>= f) s = .error e s' := by
  change EStateM.bind m f s = .error e s'
  rw [EStateM.bind, h]

theorem exists_of_bind_ok {m : Parser α} {f : α → Parser β} {s s'' : TokenStream} {y : β}
    (h : (m >>= f) s = .ok y s'') : ∃ x s', m s = .ok x s' ∧ f x s' = .ok y s'' := by
  change EStateM.bind m f s = .ok y s'' at h
  rw [EStateM.bind] at h
  split at h
  · next x s' hm => exact ⟨x, s', hm, h⟩
  · cases h

theorem eq_of_pure_ok {x y : α} {s s' : TokenStream} (h : (pure x : Parser α) s = .ok y s') :
    y = x ∧ s' = s := by
  cases h
  exact ⟨rfl, rfl⟩

/-! ## Looking ahead -/

theorem peekKind_apply (s : TokenStream) : peekKind s = .ok s.next.kind s := rfl

theorem peekKind_before (hlast : last.kind = .eof) (us : List Token) :
    peekKind (before last us) = .ok (headKind us) (before last us) := by
  cases us with
  | nil => exact congrArg (EStateM.Result.ok · _) hlast
  | cons => rfl

theorem eq_of_peek_ok {x : Token} {s s' : TokenStream} (h : peek s = .ok x s') :
    x = s.next ∧ s' = s := by
  cases h
  exact ⟨rfl, rfl⟩

theorem next_before_kind (hlast : last.kind = .eof) (us : List Token) :
    (before last us).next.kind = headKind us := by
  cases us with
  | nil => exact hlast
  | cons => rfl

theorem advance_before_cons : advance (before last (t :: us)) = .ok t (before last us) := by
  cases us <;> rfl

theorem exists_cons_of_headKind (hkind : kind ≠ .eof) (h : headKind us = kind) :
    ∃ t ts, us = t :: ts ∧ t.kind = kind := by
  cases us with
  | nil => exact absurd h.symm hkind
  | cons t ts => exact ⟨t, ts, rfl, h⟩

/-! ## Optional tokens -/

theorem accept_before_cons (hlast : last.kind = .eof) (h : t.kind = kind) :
    accept kind (before last (t :: us)) = .ok true (before last us) := by
  rw [accept, bind_ok (peekKind_before hlast _), headKind_cons, if_pos h,
    bind_ok advance_before_cons]
  rfl

theorem accept_before_of_ne (hlast : last.kind = .eof) (h : headKind us ≠ kind) :
    accept kind (before last us) = .ok false (before last us) := by
  rw [accept, bind_ok (peekKind_before hlast _), if_neg h]
  rfl

theorem cases_of_accept (hlast : last.kind = .eof) (hkind : kind ≠ .eof) {b : Bool}
    {s' : TokenStream} (h : accept kind (before last us) = .ok b s') :
    (b = true ∧ ∃ t ts, us = t :: ts ∧ t.kind = kind ∧ s' = before last ts) ∨
      (b = false ∧ headKind us ≠ kind ∧ s' = before last us) := by
  by_cases hus : headKind us = kind
  · obtain ⟨t, ts, rfl, ht⟩ := exists_cons_of_headKind hkind hus
    rw [accept_before_cons hlast ht] at h
    cases h
    exact .inl ⟨rfl, t, ts, rfl, ht, rfl⟩
  · rw [accept_before_of_ne hlast hus] at h
    cases h
    exact .inr ⟨rfl, hus, rfl⟩

/-! ## Required tokens -/

theorem expect_before_cons (hlast : last.kind = .eof) (h : t.kind = kind) :
    expect kind (before last (t :: us)) = .ok () (before last us) := by
  rw [expect, bind_ok (peekKind_before hlast _), headKind_cons, if_pos h,
    bind_ok advance_before_cons]
  rfl

theorem exists_of_expect (hlast : last.kind = .eof) (hkind : kind ≠ .eof) {x : Unit}
    {s' : TokenStream} (h : expect kind (before last us) = .ok x s') :
    ∃ t ts, us = t :: ts ∧ t.kind = kind ∧ s' = before last ts := by
  by_cases hus : headKind us = kind
  · obtain ⟨t, ts, rfl, ht⟩ := exists_cons_of_headKind hkind hus
    rw [expect_before_cons hlast ht] at h
    cases h
    exact ⟨t, ts, rfl, ht, rfl⟩
  · rw [expect, bind_ok (peekKind_before hlast _), if_neg hus] at h
    cases h

theorem nameOr_before_cons (hlast : last.kind = .eof) (h : t.kind = .name) :
    nameOr cause (before last (t :: us)) = .ok t.text (before last us) := by
  rw [nameOr, bind_ok (peekKind_before hlast _), headKind_cons, if_pos h,
    bind_ok advance_before_cons]
  rfl

theorem exists_of_nameOr (hlast : last.kind = .eof) {x : String} {s' : TokenStream}
    (h : nameOr cause (before last us) = .ok x s') :
    ∃ t ts, us = t :: ts ∧ t.kind = .name ∧ x = t.text ∧ s' = before last ts := by
  by_cases hus : headKind us = .name
  · obtain ⟨t, ts, rfl, ht⟩ := exists_cons_of_headKind (by decide) hus
    rw [nameOr_before_cons hlast ht] at h
    cases h
    exact ⟨t, ts, rfl, ht, rfl, rfl⟩
  · rw [nameOr, bind_ok (peekKind_before hlast _), if_neg hus] at h
    cases h

theorem commaSeparatedUntil_before (hlast : last.kind = .eof) (close : Token.Kind)
    (item : Parser α) (n : Nat) (us : List Token) :
    commaSeparatedUntil close item n (before last us) =
      ((if headKind us = close then pure [] else commaSeparated item n) >>= fun items =>
        expect close >>= fun _ => pure items) (before last us) := by
  rw [commaSeparatedUntil, bind_ok (peekKind_before hlast us)]
  split <;> rfl

theorem program_before (us : List Token) :
    program (before last us) =
      (itemsUntil (· = .eof) (statement us.length) us.length >>= fun body =>
        pure ⟨body⟩) (before last us) := by
  have hlength : (before last us).rest.length = us.length := by
    cases us <;> simp [before]
  rw [← hlength]
  rfl

end Parser

end ScopeScript
