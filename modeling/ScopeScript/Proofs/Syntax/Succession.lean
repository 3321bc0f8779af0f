import ScopeScript.Proofs.Syntax.Recursion

/-!
# Programs one after another

A stream may be asked for a program again and again, where the last one has ended, with a program
or with an error.  `TokenStream.after` is what is left of it then, and `TokenStream.place` is how
many tokens have been read.

Nothing of this goes behind the first `eof`: with the tokens `us` in front of it, none of them an
`eof`, every stream in which they stand ahead is read alike (`TokenStream.Ahead`).
-/

namespace ScopeScript

namespace TokenStream

/-- What is left of the stream when `n` programs have been read, or errors found in them. -/
def after (s : TokenStream) : Nat → TokenStream
  | 0 => s
  | n + 1 => (s.after n).program.2

/-- How many tokens have been read then. -/
def place (s : TokenStream) (n : Nat) : Nat := s.tokens.length - (s.after n).tokens.length

/-- The tokens `us` stand ahead in the stream, with `t` behind them, and it ends with an `eof`. -/
def Ahead (us : List Token) (t : Token) (s : TokenStream) : Prop :=
  ∃ last vs, last.kind = .eof ∧ (before last vs).next = t ∧ s = before last (us ++ vs)

section Streams

variable {us : List Token} {t : Token} {s s' : TokenStream}

theorem eq_of_tokens_eq (h : s.tokens = s'.tokens) : s = s' := by
  obtain ⟨next, rest⟩ := s
  obtain ⟨next', rest'⟩ := s'
  obtain ⟨rfl, rfl⟩ := List.cons.inj h
  rfl

theorem Ahead.next_eq (h : Ahead [] t s) : s.next = t := by
  obtain ⟨last, vs, -, hnext, rfl⟩ := h
  exact hnext

theorem Ahead.length_le (h : Ahead us t s) : us.length ≤ s.rest.length := by
  obtain ⟨last, vs, -, -, rfl⟩ := h
  rw [length_rest_before, List.length_append]
  exact Nat.le_add_right _ _

theorem Ahead.drop (h : Ahead us t s) {c : Nat} (hc : c ≤ us.length)
    (hs' : s'.tokens = s.tokens.drop c) : Ahead (us.drop c) t s' := by
  obtain ⟨last, vs, hlast, hnext, rfl⟩ := h
  refine ⟨last, vs, hlast, hnext, eq_of_tokens_eq ?_⟩
  rw [hs', tokens_before, tokens_before, List.append_assoc, List.append_assoc,
    List.drop_append_of_le_length hc]

theorem ahead_ofList {ts : List Token}
    (h : (ofList ts).tokens.take (us.length + 1) = us ++ [t]) : Ahead us t (ofList ts) := by
  obtain ⟨last, ws, hlast, hts⟩ := exists_before ts
  rw [hts, tokens_before] at h
  obtain ⟨vs, rfl, hnext⟩ := exists_of_take_eq h
  exact ⟨last, vs, hlast, hnext, hts⟩

end Streams

end TokenStream

namespace Parser

open TokenStream

variable {α : Type} {least : Nat} {us : List Token} {t : Token}

/-- A parser in front of tokens with an `eof` behind them reads some of these, and ends alike
wherever they stand ahead. -/
theorem exists_read {m : Nat → Parser α}
    (hm : ∀ k n n', k ≤ n → k ≤ n' → InStep k least (m n) (m n')) (ht : t.kind = .eof)
    (us : List Token) :
    ∃ c r, c ≤ us.length ∧ (∀ a, r = .ok a → least ≤ c) ∧
      ∀ s n, Ahead us t s → s.rest.length ≤ n →
        ∃ s', m n s = ended r s' ∧ s'.tokens = s.tokens.drop c ∧ Ahead (us.drop c) t s' := by
  obtain ⟨read, ws, r, rfl, hend, -, hsame⟩ := exists_of_inStep hm ht us
  have hleast (a : α) (ha : r = .ok a) : least ≤ read.length := by
    obtain ⟨read', ws', r', hus, hstop⟩ := hm _ _ _ (Nat.le_refl _) (Nat.le_refl _) _ [] t
      (read ++ ws) ht rfl (Nat.le_refl _)
    have hend' := hstop.left t ws' ht rfl (Nat.le_of_eq (by rw [hus]))
    rw [← hus, hend] at hend'
    obtain ⟨rfl, hws⟩ := ended_inj hend'
    obtain rfl := before_inj hws
    obtain rfl := List.append_cancel_right hus
    exact hstop.least a ha
  refine ⟨read.length, r, by simp, hleast, fun s n hs hn => ?_⟩
  obtain ⟨last, vs, hlast, hnext, rfl⟩ := hs
  rw [length_rest_before] at hn
  have hnext' : (before last (ws ++ vs)).next = (before t ws).next := by
    have happend : (before last (ws ++ vs)).next = (before t (ws ++ [])).next :=
      next_before_append hnext ws
    rwa [List.append_nil] at happend
  have hbound := (hm _ _ _ hn (Nat.le_refl _)).eq_before hlast (Nat.le_refl _)
  rw [List.append_assoc] at hbound ⊢
  refine ⟨before last (ws ++ vs), ?_, ?_, ?_⟩
  · rw [hbound]
    exact hsame last (ws ++ vs) hlast hnext'
  · rw [tokens_before, tokens_before, List.append_assoc read, List.drop_left]
  · rw [List.drop_left]
    exact ⟨last, vs, hlast, hnext, rfl⟩

/-- Items that read a token each come to an end at the first `eof` only. -/
theorem itemsUntil_ends {item : Parser α} {k n : Nat} (hitem : InStep k 1 item item)
    (ht : t.kind = .eof) (hus : ∀ u ∈ us, u.kind ≠ .eof) (hk : us.length ≤ k) (hn : us.length ≤ n)
    {xs : List α} {ws : List Token}
    (h : itemsUntil (· = .eof) item n (before t us) = .ok xs (before t ws)) : ws = [] := by
  induction n generalizing us xs with
  | zero =>
    obtain rfl := List.eq_nil_of_length_eq_zero (Nat.le_zero.1 hn)
    obtain ⟨-, hws⟩ := eq_of_pure_ok h
    exact before_inj hws
  | succ n ih =>
    cases us with
    | nil =>
      rw [itemsUntil_of_stop item _ (decide_eq_true ht)] at h
      injection h with _ hws
      exact before_inj hws.symm
    | cons u us =>
      have hu : ¬ (decide ((before t (u :: us)).next.kind = .eof) = true) := by
        rw [decide_eq_true_eq]
        exact hus u List.mem_cons_self
      rw [itemsUntil, bind_ok (peekKind_apply _), if_neg hu] at h
      obtain ⟨first, s, hfirst, h⟩ := exists_of_bind_ok h
      obtain ⟨rest, s', hrest, h⟩ := exists_of_bind_ok h
      obtain ⟨-, rfl⟩ := eq_of_pure_ok h
      obtain ⟨read, vs, r, hread, hstop⟩ := hitem _ [] t (u :: us) ht rfl hk
      have hend := hstop.left t vs ht rfl (hread ▸ hk)
      rw [← hread, hfirst] at hend
      obtain ⟨rfl, rfl⟩ := ended_inj (r := .ok first) hend
      have hlength := congrArg List.length hread
      have hleast := hstop.least first rfl
      rw [List.length_append] at hlength
      refine ih (fun v hv => hus v ?_) (by omega) (by omega) hrest
      rw [hread]
      exact List.mem_append_right read hv

/-- A program is read up to the first `eof`; what is read if there is an error in it ends in front
of that, too. -/
theorem exists_program (ht : t.kind = .eof) (hus : ∀ u ∈ us, u.kind ≠ .eof) :
    ∃ c r, c ≤ us.length ∧ (∀ p, r = .ok p → c = us.length) ∧
      ∀ s, Ahead us t s →
        ∃ s', s.program = (r, s') ∧ s'.tokens = s.tokens.drop c ∧ Ahead (us.drop c) t s' := by
  obtain ⟨c, r, hc, -, hread⟩ := exists_read inStep_program ht us
  refine ⟨c, r.map Program.mk, hc, fun p hp => ?_, fun s hs => ?_⟩
  · have hahead : Ahead us t (before t us) := ⟨t, [], ht, rfl, by rw [List.append_nil]⟩
    have hbound : (before t us).rest.length ≤ us.length :=
      Nat.le_of_eq (length_rest_before t us)
    obtain ⟨s', hs', hdrop, -⟩ := hread _ _ hahead hbound
    obtain rfl : s' = before t (us.drop c) := by
      apply eq_of_tokens_eq
      rw [hdrop, tokens_before, tokens_before, List.drop_append_of_le_length hc]
    cases r with
    | error e => cases hp
    | ok body =>
      have hstatement := inStep_statement (Nat.le_refl us.length) (Nat.le_refl us.length)
      have hnil := itemsUntil_ends hstatement ht hus (Nat.le_refl _) (Nat.le_refl _) hs'
      have hlength := congrArg List.length hnil
      rw [List.length_drop, List.length_nil] at hlength
      omega
  · obtain ⟨s', hs', hdrop, hahead⟩ := hread s s.rest.length hs (Nat.le_refl _)
    exact ⟨s', program_of_ended hs', hdrop, hahead⟩

end Parser

namespace TokenStream

open ScopeScript.Parser

variable {us : List Token} {t : Token} {s : TokenStream}

theorem place_zero (s : TokenStream) : s.place 0 = 0 := Nat.sub_self _

theorem place_of_drop {n c : Nat} (hc : c ≤ s.tokens.length)
    (h : (s.after n).tokens = s.tokens.drop c) : s.place n = c := by
  rw [place, h, List.length_drop]
  omega

/-- At an `eof` there is an empty program, and the stream stays where it is. -/
theorem program_of_eof (hs : s.next.kind = .eof) : s.program = (.ok ⟨[]⟩, s) :=
  program_of_ended (r := .ok []) (itemsUntil_of_stop _ _ (decide_eq_true hs))

section Ahead

variable (ht : t.kind = .eof)
include ht

section Free

variable (hus : ∀ u ∈ us, u.kind ≠ .eof)
include hus

/-- One more program, when `c` tokens have been read. -/
theorem exists_after_succ {c : Nat} (hc : c ≤ us.length) :
    ∃ c' r, c ≤ c' ∧ c' ≤ us.length ∧ (∀ p, r = .ok p → c' = us.length) ∧
      ∀ s n, Ahead us t s → (s.after n).tokens = s.tokens.drop c →
        (s.after n).program.1 = r ∧ (s.after (n + 1)).tokens = s.tokens.drop c' := by
  have hus' : ∀ u ∈ us.drop c, u.kind ≠ .eof := fun u hu => hus u (List.mem_of_mem_drop hu)
  obtain ⟨d, r, hd, hok, hprogram⟩ := exists_program ht hus'
  rw [List.length_drop] at hd hok
  refine ⟨c + d, r, by omega, by omega, fun p hp => ?_, fun s n hs hdrop => ?_⟩
  · have := hok p hp
    omega
  · obtain ⟨s', hs', hdrop', -⟩ := hprogram (s.after n) (hs.drop hc hdrop)
    rw [after, hs', hdrop', hdrop, List.drop_drop]
    exact ⟨rfl, rfl⟩

/-- How many tokens the first `n` programs read, wherever these tokens stand ahead. -/
theorem exists_after (n : Nat) :
    ∃ c, c ≤ us.length ∧ ∀ s, Ahead us t s → (s.after n).tokens = s.tokens.drop c := by
  induction n with
  | zero => exact ⟨0, Nat.zero_le _, fun s _ => rfl⟩
  | succ n ih =>
    obtain ⟨c, hc, hafter⟩ := ih
    obtain ⟨c', r, -, hc', -, hstep⟩ := exists_after_succ ht hus hc
    exact ⟨c', hc', fun s hs => (hstep s n hs (hafter s hs)).2⟩

/-- The next program, wherever the tokens stand ahead. -/
theorem exists_program_after (n : Nat) :
    ∃ c r c', c ≤ c' ∧ c' ≤ us.length ∧ (∀ p, r = .ok p → c' = us.length) ∧
      ∀ s, Ahead us t s → s.place n = c ∧ s.place (n + 1) = c' ∧
        (s.after n).tokens = s.tokens.drop c ∧ (s.after n).program.1 = r := by
  obtain ⟨c, hc, hafter⟩ := exists_after ht hus n
  obtain ⟨c', r, hle, hc', hok, hstep⟩ := exists_after_succ ht hus hc
  refine ⟨c, r, c', hle, hc', hok, fun s hs => ?_⟩
  have hdrop := hafter s hs
  obtain ⟨hr, hdrop'⟩ := hstep s n hs hdrop
  have hlength : s.tokens.length = s.rest.length + 1 := rfl
  have hus_le := hs.length_le
  exact ⟨place_of_drop (by omega) hdrop, place_of_drop (by omega) hdrop', hdrop, hr⟩

end Free

/-- A statement that is read takes a token. -/
theorem place_lt_of_statement (hs : Ahead us t s) {c n : Nat} (hc : c ≤ us.length)
    {u u' : TokenStream} (hu : u.tokens = s.tokens.drop c) (hn : u.rest.length ≤ n) {x : Stmt}
    (h : statement n u = .ok x u') :
    ∃ c', c < c' ∧ c' ≤ us.length ∧ u'.tokens = s.tokens.drop c' := by
  obtain ⟨d, r, hd, hleast, hread⟩ :=
    exists_read (fun k n n' => inStep_statement) ht (us.drop c)
  obtain ⟨u'', hend, hdrop, -⟩ := hread u n (hs.drop hc hu) hn
  rw [h] at hend
  obtain ⟨rfl, rfl⟩ := ended_inj (r := .ok x) hend
  rw [List.length_drop] at hd
  have hpos := hleast x rfl
  refine ⟨c + d, by omega, by omega, ?_⟩
  rw [hdrop, hu, List.drop_drop]

end Ahead

/-- The tokens in front of the first `eof` of a list, and that one. -/
theorem exists_first (ts : List Token) :
    ∃ us t, t.kind = .eof ∧ (∀ u ∈ us, u.kind ≠ .eof) ∧
      us.length = (ofList ts).tokens.findIdx (·.kind = .eof) ∧
      us.length < (ofList ts).tokens.length ∧
      (ofList ts).tokens.take (us.length + 1) = us ++ [t] := by
  obtain ⟨last, ws, hlast, hts⟩ := exists_before ts
  have hfirst : (ofList ts).tokens.findIdx (·.kind = .eof) < (ofList ts).tokens.length := by
    refine List.findIdx_lt_length_of_exists ⟨last, ?_, decide_eq_true hlast⟩
    rw [hts, tokens_before]
    exact List.mem_append_right ws (List.mem_singleton_self last)
  refine ⟨(ofList ts).tokens.take ((ofList ts).tokens.findIdx (·.kind = .eof)),
    (ofList ts).tokens[(ofList ts).tokens.findIdx (·.kind = .eof)], ?_, fun u hu => ?_, ?_⟩
  · exact of_decide_eq_true (List.findIdx_getElem (w := hfirst))
  · obtain ⟨i, hi, rfl⟩ := List.mem_take_iff_getElem.1 hu
    have hlt : i < (ofList ts).tokens.findIdx (·.kind = .eof) := by omega
    exact of_decide_eq_false (List.not_of_lt_findIdx hlt)
  · rw [List.length_take_of_le (Nat.le_of_lt hfirst)]
    exact ⟨rfl, hfirst, List.take_succ_eq_append_getElem hfirst⟩

/-- Programs read from one list of tokens, each where the last one has ended, with a program or
with an error.  The place in the list is one of its tokens and never goes back, nor behind the
first `eof`.  Each time the rules come to an end: with more rounds than there are tokens left, no
call is made behind them.  A program ends at the first `eof`, and from there on only empty programs
are read; a statement takes a token at least; and what stands behind the first `eof` does not
matter. -/
theorem successive_programs (ts : List Token) :
    let s := ofList ts
    let first := s.tokens.findIdx (·.kind = .eof)
    first < s.tokens.length ∧ s.place 0 = 0 ∧
    (∀ n, (s.after n).tokens = s.tokens.drop (s.place n) ∧ s.place n ≤ s.place (n + 1) ∧
      s.place n ≤ first) ∧
    (∀ n C N, (s.after n).rest.length < N →
      (Calls.unfold^[N] C).program (s.after n) = Parser.program (s.after n)) ∧
    (∀ n p, (s.after n).program.1 = .ok p → s.place (n + 1) = first) ∧
    (∀ n, s.place n = first → (s.after n).program = (.ok ⟨[]⟩, s.after n)) ∧
    (∀ c n u x u', c ≤ first → u.tokens = s.tokens.drop c → u.rest.length ≤ n →
      statement n u = .ok x u' →
        ∃ c', c < c' ∧ c' ≤ first ∧ u'.tokens = s.tokens.drop c') ∧
    ∀ us, (ofList us).tokens.take (first + 1) = s.tokens.take (first + 1) →
      ∀ n, ((ofList us).after n).program.1 = (s.after n).program.1 ∧
        (ofList us).place n = s.place n := by
  intro s first
  obtain ⟨us, t, ht, hus, hfirst, hlength, htake⟩ := exists_first ts
  have hahead : Ahead us t s := ahead_ofList htake
  change us.length = first at hfirst
  rw [← hfirst]
  refine ⟨hlength, s.place_zero, fun n => ?_, fun n C N hN => ?_, fun n p hp => ?_, fun n hn => ?_,
    fun c n u x u' hc hu hn h => ?_, fun us' hus' n => ?_⟩
  · obtain ⟨c, r, c', hle, hc', -, hafter⟩ := exists_program_after ht hus n
    obtain ⟨hc, hnext, hdrop, -⟩ := hafter s hahead
    rw [hc, hnext]
    exact ⟨hdrop, hle, Nat.le_trans hle hc'⟩
  · obtain ⟨c, r, c', hle, hc', -, hafter⟩ := exists_program_after ht hus n
    obtain ⟨-, -, hdrop, -⟩ := hafter s hahead
    obtain ⟨last, vs, hlast, -, hrest⟩ := hahead.drop (Nat.le_trans hle hc') hdrop
    rw [hrest, length_rest_before] at hN
    rw [hrest]
    exact Calls.program_iterate C hlast hN
  · obtain ⟨c, r, c', -, -, hok, hafter⟩ := exists_program_after ht hus n
    obtain ⟨-, hnext, -, hr⟩ := hafter s hahead
    rw [hnext]
    exact hok p (hr.symm.trans hp)
  · obtain ⟨c, r, c', -, -, -, hafter⟩ := exists_program_after ht hus n
    obtain ⟨hc, -, hdrop, -⟩ := hafter s hahead
    obtain rfl : c = us.length := hc.symm.trans hn
    have hend : Ahead [] t (s.after n) := by
      simpa using hahead.drop (Nat.le_refl _) hdrop
    exact program_of_eof (hend.next_eq ▸ ht)
  · exact place_lt_of_statement ht hahead hc hu hn h
  · obtain ⟨c, r, c', -, -, -, hafter⟩ := exists_program_after ht hus n
    obtain ⟨hc, -, -, hr⟩ := hafter s hahead
    obtain ⟨hc', -, -, hr'⟩ := hafter (ofList us') (ahead_ofList (hus'.trans htake))
    exact ⟨hr'.trans hr.symm, hc'.trans hc.symm⟩

/-- An error at an `eof` in the middle.  From then on there are only empty programs, and the brace
behind it, or anything else there, is never found. -/
theorem successive_programs_middle :
    let ts : List Token := [⟨.letWord, "let", 1⟩, ⟨.eof, "", 1⟩, ⟨.rightCurly, "\x7d", 2⟩]
    let s := ofList ts
    s.program.1 = .error ⟨1, .expectedName "EOF"⟩ ∧ s.place 1 = 1 ∧
      (s.after 1).program = (.ok ⟨[]⟩, s.after 1) ∧ s.place 2 = 1 ∧
      ∀ us, (ofList us).tokens.take 2 = ts.take 2 →
        ∀ n, ((ofList us).after n).program.1 = (s.after n).program.1 := by
  intro ts s
  obtain ⟨-, -, -, -, hok, heof, -, hsame⟩ := successive_programs ts
  have hplace : s.place 1 = 1 := by rfl
  have hempty : (s.after 1).program = (.ok ⟨[]⟩, s.after 1) := heof 1 hplace
  have hstays : s.place 2 = 1 := hok 1 ⟨[]⟩ (congrArg Prod.fst hempty)
  exact ⟨by rfl, hplace, hempty, hstays, fun us hus n => (hsame us hus n).1⟩

end TokenStream

end ScopeScript
