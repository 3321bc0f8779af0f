import ScopeScript.Proofs.Syntax.Lookahead
import ScopeScript.Proofs.Token.Words

/-!
# What errors depend on

Where the reader of programs ends in a list of tokens, with a program or with an error, it has not
looked behind the next token: it ends there alike in each list with the same tokens so far.  An
error is about one of these tokens (`TokenStream.program_lookahead`).
-/

namespace ScopeScript

namespace TokenStream

/-- The tokens that are still to be read. -/
def tokens (s : TokenStream) : List Token := s.next :: s.rest

@[simp] theorem tokens_before (last : Token) (us : List Token) :
    (before last us).tokens = us ++ [last] := by
  cases us with
  | nil => rfl
  | cons => rfl

theorem length_rest_before (last : Token) (us : List Token) :
    (before last us).rest.length = us.length := by
  cases us with
  | nil => rfl
  | cons => simp [before]

/-- The stream of a list of tokens is one with an `eof` as its last token. -/
theorem exists_before (ts : List Token) :
    ∃ last us, last.kind = .eof ∧ ofList ts = before last us := by
  cases ts with
  | nil => exact ⟨.eof 1, [], rfl, rfl⟩
  | cons t ts =>
    by_cases hlast : (ts.getLast?.getD t).kind = .eof
    · have hof : ofList (t :: ts) = ⟨t, ts⟩ := if_pos hlast
      obtain rfl | ⟨us, last, rfl⟩ := List.eq_nil_or_concat ts
      · exact ⟨t, [], by simpa using hlast, hof⟩
      · exact ⟨last, t :: us, by simpa using hlast, by simpa [before] using hof⟩
    · exact ⟨.eof (ts.getLast?.getD t).line, t :: ts, rfl, if_neg hlast⟩

/-- Lists that are the same as far as the token in front of which some tokens have been read. -/
theorem exists_of_take_eq {last : Token} {us read : List Token} {t : Token}
    (h : (us ++ [last]).take (read.length + 1) = read ++ [t]) :
    ∃ vs, us = read ++ vs ∧ (before last vs).next = t := by
  induction read generalizing us with
  | nil =>
    refine ⟨us, rfl, ?_⟩
    cases us with
    | nil => simpa [before] using h
    | cons u us => simpa [before] using h
  | cons v read ih =>
    cases us with
    | nil => simp at h
    | cons u us =>
      simp only [List.cons_append, List.length_cons, List.take_succ_cons, List.cons.injEq] at h
      obtain ⟨rfl, h⟩ := h
      obtain ⟨vs, rfl, hnext⟩ := ih h
      exact ⟨vs, rfl, hnext⟩

end TokenStream

namespace Parser

open TokenStream

variable {α : Type} {k least : Nat} {last : Token} {us vs ws : List Token}

theorem ended_inj {r r' : Except SyntaxError α} {s s' : TokenStream}
    (h : ended r s = ended r' s') : r = r' ∧ s = s' := by
  cases r with
  | ok a =>
    cases r' with
    | ok a' =>
      cases h
      exact ⟨rfl, rfl⟩
    | error e' => cases h
  | error e =>
    cases r' with
    | ok a' => cases h
    | error e' =>
      cases h
      exact ⟨rfl, rfl⟩

theorem before_inj (h : before last vs = before last ws) : vs = ws := by
  have htokens := congrArg tokens h
  rw [tokens_before, tokens_before] at htokens
  exact List.append_cancel_right htokens

/-- In front of few tokens parsers that are in step do the same. -/
theorem InStep.eq_before {m m' : Parser α} (h : InStep k least m m') (hlast : last.kind = .eof)
    (hus : us.length ≤ k) : m (before last us) = m' (before last us) := by
  obtain ⟨read, vs, r, rfl, hstop⟩ := h _ [] last us hlast rfl hus
  rw [hstop.left last vs hlast rfl hus, hstop.right last vs hlast rfl hus]

/-- A parser with a bound that does not matter if it is large enough reads some tokens of a list and
ends before the next one, and so it does in all lists with these tokens, whatever bounds belong to
them. -/
theorem exists_of_inStep {m : Nat → Parser α}
    (hm : ∀ k n n', k ≤ n → k ≤ n' → InStep k least (m n) (m n')) (hlast : last.kind = .eof)
    (us : List Token) :
    ∃ read vs r, us = read ++ vs ∧ m us.length (before last us) = ended r (before last vs) ∧
      (∀ e, r = .error e → ∃ u ∈ read ++ [(before last vs).next], e.Reports u) ∧
      ∀ last' vs', last'.kind = .eof → (before last' vs').next = (before last vs).next →
        m (read ++ vs').length (before last' (read ++ vs')) = ended r (before last' vs') := by
  have hends (n : Nat) (hn : us.length ≤ n) : ∃ read vs r, us = read ++ vs ∧
      m us.length (before last us) = ended r (before last vs) ∧
        StopTogether n least [] (m n) (m n) read (before last vs).next r := by
    obtain ⟨read, vs, r, hus, hstop⟩ :=
      hm n n n (Nat.le_refl _) (Nat.le_refl _) _ [] last us hlast rfl hn
    have hend := hstop.left last vs hlast rfl (hus ▸ hn)
    have hbound := (hm us.length us.length n (Nat.le_refl _) hn).eq_before hlast (Nat.le_refl _)
    rw [← hus, ← hbound] at hend
    exact ⟨read, vs, r, hus, hend, hstop⟩
  obtain ⟨read, vs, r, hus, hend, hstop⟩ := hends us.length (Nat.le_refl _)
  refine ⟨read, vs, r, hus, hend, hstop.reports, fun last' vs' hlast' hnext => ?_⟩
  -- The first list is read once more, with a bound that suffices for the second one, too.
  let n := max us.length (read ++ vs').length
  have hn : (read ++ vs').length ≤ n := Nat.le_max_right _ _
  obtain ⟨read', ws, r', hus', hend', hstop'⟩ := hends n (Nat.le_max_left _ _)
  obtain ⟨rfl, hws⟩ := ended_inj (hend'.symm.trans hend)
  obtain rfl := before_inj hws
  obtain rfl := List.append_cancel_right (hus'.symm.trans hus)
  rw [(hm (read' ++ vs').length _ n (Nat.le_refl _) hn).eq_before hlast' (Nat.le_refl _)]
  exact hstop'.left last' vs' hlast' hnext hn

/-- The same in terms of streams.  The place where the parser ends is the number of tokens read. -/
theorem exists_place {m : Nat → Parser α}
    (hm : ∀ k n n', k ≤ n → k ≤ n' → InStep k least (m n) (m n')) (ts : List Token) :
    ∃ c r s', c < (ofList ts).tokens.length ∧ s'.tokens = (ofList ts).tokens.drop c ∧
      m (ofList ts).rest.length (ofList ts) = ended r s' ∧
      (∀ e, r = .error e → ∃ u ∈ (ofList ts).tokens.take (c + 1), e.Reports u) ∧
      ∀ us, (ofList us).tokens.take (c + 1) = (ofList ts).tokens.take (c + 1) →
        ∃ u', u'.tokens = (ofList us).tokens.drop c ∧
          m (ofList us).rest.length (ofList us) = ended r u' := by
  obtain ⟨last, us, hlast, hts⟩ := exists_before ts
  obtain ⟨read, vs, r, rfl, hend, hreports, hsame⟩ := exists_of_inStep hm hlast us
  have htake : (read ++ (vs ++ [last])).take (read.length + 1) =
      read ++ [(before last vs).next] := by
    rw [List.take_length_add_append]
    cases vs with
    | nil => rfl
    | cons => rfl
  refine ⟨read.length, r, before last vs, ?_⟩
  simp only [hts, tokens_before, List.append_assoc, length_rest_before, htake, List.drop_left]
  refine ⟨by simp, trivial, hend, hreports, fun us' hus' => ?_⟩
  obtain ⟨last', us', hlast', hts'⟩ := exists_before us'
  rw [hts', tokens_before] at hus'
  obtain ⟨vs', rfl, hnext⟩ := exists_of_take_eq hus'
  refine ⟨before last' vs', ?_, ?_⟩
  · rw [hts', tokens_before, tokens_before, List.append_assoc, List.drop_left]
  · rw [hts', length_rest_before]
    exact hsame last' vs' hlast' hnext

/-! ## Programs -/

/-- The first `n` statements of a program, or all of them if there are fewer. -/
def leading (n : Nat) : Parser (List Stmt) := do
  let bound := (← get).rest.length
  itemsUntil (· = .eof) (statement bound) n

/-- There are no more items than the bound says, and with a smaller bound the first are read. -/
theorem itemsUntil_take {stop : Token.Kind → Bool} {item : Parser α} {n N : Nat} (hn : n ≤ N)
    {xs : List α} {s s' : TokenStream} (h : itemsUntil stop item N s = .ok xs s') :
    xs.length ≤ N ∧ ∃ s'', itemsUntil stop item n s = .ok (xs.take n) s'' := by
  induction N generalizing n xs s s' with
  | zero =>
    obtain rfl := Nat.le_zero.1 hn
    obtain ⟨rfl, -⟩ := eq_of_pure_ok h
    exact ⟨Nat.le_refl _, s, rfl⟩
  | succ N ih =>
    by_cases hstop : stop s.next.kind = true
    · rw [itemsUntil_of_stop item (N + 1) hstop] at h
      cases h
      rw [itemsUntil_of_stop item n hstop, List.take_nil]
      exact ⟨Nat.zero_le _, s, rfl⟩
    · rw [itemsUntil, bind_ok (peekKind_apply s), if_neg hstop] at h
      obtain ⟨first, t, hfirst, h⟩ := exists_of_bind_ok h
      obtain ⟨rest, u, hrest, h⟩ := exists_of_bind_ok h
      obtain ⟨rfl, -⟩ := eq_of_pure_ok h
      cases n with
      | zero => exact ⟨Nat.succ_le_succ (ih (Nat.zero_le N) hrest).1, s, rfl⟩
      | succ n =>
        obtain ⟨hlength, u', hu'⟩ := ih (Nat.le_of_succ_le_succ hn) hrest
        refine ⟨Nat.succ_le_succ hlength, u', ?_⟩
        rw [itemsUntil, bind_ok (peekKind_apply s), if_neg hstop, bind_ok hfirst, bind_ok hu']
        rfl

theorem inStep_leading (n k N N' : Nat) (hN : k ≤ N) (hN' : k ≤ N') :
    InStep k 0 (itemsUntil (· = .eof) (statement N) n) (itemsUntil (· = .eof) (statement N') n) :=
  inStep_itemsUntil rfl (.inl rfl) (inStep_statement hN hN')

theorem inStep_program (k N N' : Nat) (hN : k ≤ N) (hN' : k ≤ N') :
    InStep k 0 (itemsUntil (· = .eof) (statement N) N)
      (itemsUntil (· = .eof) (statement N') N') :=
  inStep_itemsUntil rfl (.inr ⟨hN, hN'⟩) (inStep_statement hN hN')

end Parser

namespace TokenStream

open ScopeScript.Parser

theorem program_of_ended {s s' : TokenStream} {r : Except SyntaxError (List Stmt)}
    (h : itemsUntil (· = .eof) (statement s.rest.length) s.rest.length s = ended r s') :
    s.program = (r.map Program.mk, s') := by
  have hprogram : Parser.program s =
      (itemsUntil (· = .eof) (statement s.rest.length) s.rest.length >>= fun body =>
        pure ⟨body⟩) s := rfl
  rw [TokenStream.program, hprogram]
  cases r with
  | ok body =>
    rw [bind_ok h]
    rfl
  | error e =>
    rw [bind_error h]
    rfl

theorem items_of_ofTokens {ts : List Token} {p : Program} (hp : Program.ofTokens ts = .ok p) :
    ∃ s', itemsUntil (· = .eof) (statement (ofList ts).rest.length) (ofList ts).rest.length
      (ofList ts) = .ok p.body s' := by
  obtain ⟨-, r, s', -, -, hend, -⟩ := exists_place inStep_program ts
  rw [Program.ofTokens, program_of_ended hend] at hp
  cases r with
  | ok body =>
    obtain rfl : Program.mk body = p := Except.ok.inj hp
    exact ⟨s', hend⟩
  | error e => cases hp

/-- The first statements of a program are the first ones that are read. -/
theorem take_of_leading {ts : List Token} {n : Nat} {body : List Stmt} {s' : TokenStream}
    {p : Program} (h : leading n (ofList ts) = .ok body s') (hp : Program.ofTokens ts = .ok p) :
    p.body.take n = body := by
  obtain ⟨t, ht⟩ := items_of_ofTokens hp
  change itemsUntil (· = .eof) (statement (ofList ts).rest.length) n (ofList ts) = _ at h
  obtain ⟨last, us, hlast, hts⟩ := exists_before ts
  rw [hts, length_rest_before] at h ht
  by_cases hn : n ≤ us.length
  · obtain ⟨-, u, hu⟩ := itemsUntil_take hn ht
    rw [h] at hu
    cases hu
    rfl
  · -- There are fewer statements than that.
    have hn : us.length ≤ n := by omega
    have hsame : InStep us.length 0 (itemsUntil (· = .eof) (statement us.length) us.length)
        (itemsUntil (· = .eof) (statement us.length) n) :=
      inStep_itemsUntil rfl (.inr ⟨Nat.le_refl _, hn⟩)
        (inStep_statement (Nat.le_refl _) (Nat.le_refl _))
    obtain ⟨hlength, -⟩ := itemsUntil_take (Nat.le_refl _) ht
    rw [hsame.eq_before hlast (Nat.le_refl _), h] at ht
    cases ht
    exact List.take_of_length_le (Nat.le_trans hlength hn)

/-- A token of a text is shown in the same way as no other kind of token is. -/
theorem shown_ne_label_of_ofSource {source : String} {ts : List Token}
    (h : Token.ofSource source = .ok ts) {t : Token} (ht : t ∈ (ofList ts).tokens)
    {kind : Token.Kind} (hkind : kind ∉ [.eof, .name, .number]) (hne : t.kind ≠ kind) :
    t.shown ≠ kind.label := by
  obtain ⟨words, final, rfl, -⟩ := Token.exists_of_ofSource h
  have hwords := Token.isWord_of_ofSource h
  rw [ofList_append rfl, tokens_before] at ht
  refine Token.shown_ne_label (fun heof => ?_) hkind hne
  obtain ht | ht := List.mem_append.1 ht
  · exact hwords t ht
  · obtain rfl := List.mem_singleton.1 ht
    exact absurd rfl heof

/-- The reader of programs has one token of lookahead.  If it ends with an error, with the token at
the place `c` next, then it ends with the same error there in all lists that start with the same
`c + 1` tokens; the line of the error, and the text that it says was found, are those of one of
these tokens, where `EOF` is found for the end of the input.  If it has read the first `n`
statements, with the token at the place `c` next, then it reads the same ones from all such lists.
A token that is found in a text in the place of another one is not shown as that one is. -/
theorem program_lookahead (ts : List Token) :
    (∀ e s', (ofList ts).program = (.error e, s') →
      ∃ c, c < (ofList ts).tokens.length ∧ s'.tokens = (ofList ts).tokens.drop c ∧
        (∃ t ∈ (ofList ts).tokens.take (c + 1),
          e.line = t.line ∧
            ∀ text ∈ e.cause.found?, text = if t.kind = .eof then "EOF" else t.text) ∧
        ∀ us, (ofList us).tokens.take (c + 1) = (ofList ts).tokens.take (c + 1) →
          ∃ u', (ofList us).program = (.error e, u') ∧ u'.tokens = (ofList us).tokens.drop c) ∧
    (∀ n body s', leading n (ofList ts) = .ok body s' →
      ∃ c, c < (ofList ts).tokens.length ∧ s'.tokens = (ofList ts).tokens.drop c ∧
        ∀ us, (ofList us).tokens.take (c + 1) = (ofList ts).tokens.take (c + 1) →
          (∃ u', leading n (ofList us) = .ok body u' ∧ u'.tokens = (ofList us).tokens.drop c) ∧
          ∀ p, Program.ofTokens us = .ok p → p.body.take n = body) ∧
    ∀ source line found expected, Token.ofSource source = .ok ts →
      Program.ofTokens ts = .error ⟨line, .unexpectedToken found expected⟩ →
        found ≠ expected.label := by
  obtain ⟨c, r, s', hc, hs', hend, hreports, hsame⟩ := exists_place inStep_program ts
  have hprogram := program_of_ended hend
  refine ⟨fun e t ht => ?_, fun n body t ht => ?_, fun source line found expected hsource he => ?_⟩
  · obtain ⟨hr, rfl⟩ := Prod.mk.inj (hprogram.symm.trans ht)
    obtain rfl : r = .error e := by
      cases r with
      | ok body => cases hr
      | error e' => exact congrArg _ (Except.error.inj hr)
    obtain ⟨u, hu, hreport⟩ := hreports e rfl
    refine ⟨c, hc, hs', ⟨u, hu, hreport.line, hreport.found⟩, fun us hus => ?_⟩
    obtain ⟨u', hu', hend'⟩ := hsame us hus
    exact ⟨u', program_of_ended hend', hu'⟩
  · obtain ⟨c, r, s', hc, hs', hend, -, hsame⟩ := exists_place (inStep_leading n) ts
    have hok : ended r s' = ended (.ok body) t := hend.symm.trans ht
    obtain ⟨rfl, rfl⟩ := ended_inj hok
    refine ⟨c, hc, hs', fun us hus => ?_⟩
    obtain ⟨u', hu', hleading⟩ := hsame us hus
    exact ⟨⟨u', hleading, hu'⟩, fun p hp => take_of_leading hleading hp⟩
  · rw [Program.ofTokens, hprogram] at he
    cases r with
    | ok body => cases he
    | error e =>
      obtain rfl := Except.error.inj he
      obtain ⟨u, hu, hreport⟩ := hreports _ rfl
      obtain ⟨hne, hexpected⟩ := hreport.expected _ _ rfl
      rw [hreport.found found rfl]
      exact shown_ne_label_of_ofSource hsource (List.mem_of_mem_take hu) hexpected hne

/-- A constant without a value, whatever comes behind the name in the next line.  The error is on
the line of the semicolon, which has been read. -/
theorem program_lookahead_constant :
    let ts : List Token := [⟨.constWord, "const", 1⟩, ⟨.name, "x", 1⟩, ⟨.semicolon, ";", 2⟩,
      ⟨.name, "y", 3⟩, ⟨.eof, "", 3⟩]
    let e : SyntaxError := ⟨2, .missingInitializer "x"⟩
    (ofList ts).program = (.error e, ⟨⟨.name, "y", 3⟩, [⟨.eof, "", 3⟩]⟩) ∧
      ∀ us, (ofList us).tokens.take 4 = ts.take 4 → Program.ofTokens us = .error e := by
  intro ts e
  have hrun : (ofList ts).program = (.error e, ⟨⟨.name, "y", 3⟩, [⟨.eof, "", 3⟩]⟩) := by rfl
  refine ⟨hrun, fun us hus => ?_⟩
  obtain ⟨c, hc, hdrop, -, hsame⟩ := (program_lookahead ts).1 e _ hrun
  have hlength := congrArg List.length hdrop
  have hc : c = 3 := by
    rw [List.length_drop] at hlength
    have hts : (ofList ts).tokens.length = 5 := by rfl
    have hs : (TokenStream.tokens ⟨⟨.name, "y", 3⟩, [⟨.eof, "", 3⟩]⟩).length = 2 := rfl
    omega
  subst hc
  obtain ⟨u', hu', -⟩ := hsame us hus
  rw [Program.ofTokens, hu']

end TokenStream

end ScopeScript
