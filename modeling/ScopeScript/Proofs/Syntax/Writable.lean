import ScopeScript.Proofs.Syntax.Layout
import ScopeScript.Proofs.Syntax.Joining
import ScopeScript.Proofs.Token.Words

/-!
# Programs that can be written

Which trees are those of source texts: a tree is one if its names are names, its numbers are those
of runs of digits and its constants have values (`Program.Writable`), and no other tree is one
(`Program.ofSource_image`).

One direction is an induction on derivations.  For the other one every expression is written in
parentheses and every statement that is an expression with a semicolon, so that the rules of the
grammar may be applied to the parts of a tree as they are.
-/

namespace ScopeScript

/-! ## Writable trees -/

/-- An expression whose names are names, whose properties behind points are names, and whose numbers
are those of runs of digits.  It has no `null` in it, which is written as a variable. -/
inductive Expr.Writable : Expr → Prop
  | number {text : String} {x : Float} (hdigits : Number.IsDigitRun text)
      (hx : Number.parse? text = some x) : Writable (.number x)
  | name {x : String} (hx : Text.IsName x) : Writable (.name x)
  | assign {target value : Expr} (htarget : Writable target) (hvalue : Writable value) :
      Writable (.assign target value)
  | binary {operator : Operator} {lhs rhs : Expr} (hlhs : Writable lhs) (hrhs : Writable rhs) :
      Writable (.binary operator lhs rhs)
  | call {callee : Expr} {arguments : List Expr} (hcallee : Writable callee)
      (harguments : ∀ e ∈ arguments, Writable e) : Writable (.call callee arguments)
  | dot {object : Expr} {x : String} (hobject : Writable object) (hx : Text.IsName x) :
      Writable (.dot object (.name x))
  | index {object key : Expr} (hobject : Writable object) (hkey : Writable key) :
      Writable (.index object key)
  | object {properties : List Property} (hkeys : ∀ p ∈ properties, Text.IsName p.key)
      (hvalues : ∀ p ∈ properties, ∀ e ∈ p.value?, Writable e) : Writable (.object properties)

/-- A statement with such expressions and names, where each constant has a value. -/
inductive Stmt.Writable : Stmt → Prop
  | declareOnly {x : String} (hx : Text.IsName x) : Writable (.declare false x none)
  | declare {constant : Bool} {x : String} {init : Expr} (hx : Text.IsName x)
      (hinit : init.Writable) : Writable (.declare constant x (some init))
  | define {x : String} {params : List String} {body : List Stmt} (hx : Text.IsName x)
      (hparams : ∀ y ∈ params, Text.IsName y) (hbody : ∀ s ∈ body, Writable s) :
      Writable (.define x params body)
  | expr {e : Expr} (he : e.Writable) : Writable (.expr e)

/-- A program of such statements. -/
def Program.Writable (p : Program) : Prop := ∀ s ∈ p.body, s.Writable

namespace Grammar

/-- An entry of a writable object literal. -/
def EntryWritable (p : Property) : Prop := Text.IsName p.key ∧ ∀ e ∈ p.value?, e.Writable

/-- A suffix of a writable expression. -/
def Suffix.Writable : Suffix → Prop
  | dot x => Text.IsName x
  | index key => key.Writable
  | call arguments => ∀ e ∈ arguments, e.Writable

/-- What the trees of a rule are when the tokens are words. -/
def Rule.Writable : (r : Rule) → r.Tree → Prop
  | program => Program.Writable
  | statements => fun body : List Stmt => ∀ s ∈ body, s.Writable
  | statement => Stmt.Writable
  | expr | operand | sum | product | chain | primary => Expr.Writable
  | entry => EntryWritable
  | sumTail | productTail => fun ops : List (Operator × Expr) => ∀ o ∈ ops, o.2.Writable
  | suffixes => fun ss : List Suffix => ∀ s ∈ ss, s.Writable
  | suffix => Suffix.Writable
  | word => Text.IsName
  | separated item | list item => fun xs : List item.Tree => ∀ x ∈ xs, item.Writable x

/-! ## Programs that are read -/

theorem Suffix.Writable.apply {e : Expr} {s : Suffix} (he : e.Writable) (hs : s.Writable) :
    (s.apply e).Writable := by
  cases s with
  | dot x => exact .dot he hs
  | index key => exact .index he hs
  | call arguments => exact .call he hs

theorem writable_applySuffixes {e : Expr} {ss : List Suffix} (he : e.Writable)
    (hss : ∀ s ∈ ss, s.Writable) : (applySuffixes e ss).Writable := by
  induction ss generalizing e with
  | nil => exact he
  | cons s ss ih =>
    obtain ⟨hs, hss⟩ := List.forall_mem_cons.1 hss
    exact ih (hs.apply he) hss

theorem writable_applyOperations {e : Expr} {ops : List (Operator × Expr)} (he : e.Writable)
    (hops : ∀ o ∈ ops, o.2.Writable) : (applyOperations e ops).Writable := by
  induction ops generalizing e with
  | nil => exact he
  | cons o ops ih =>
    obtain ⟨ho, hops⟩ := List.forall_mem_cons.1 hops
    exact ih (.binary he ho) hops

/-- The tree of a phrase that consists of words is writable. -/
theorem Derives.writable {r : Rule} {ts : List Token} {x : r.Tree} (h : Derives r ts x)
    (hts : ∀ t ∈ ts, t.IsWord) : r.Writable x := by
  induction h with
  | program _ ih => exact ih hts
  | noStatement | sumEnd | productEnd | noSuffix | emptyList => exact fun _ hmem => nomatch hmem
  | statements _ _ ih ihrest | suffixes _ _ ih ihrest =>
    obtain ⟨hts, hus⟩ := List.forall_mem_append.1 hts
    exact List.forall_mem_cons.2 ⟨ih hts, ihrest hus⟩
  | bareStatements _ _ _ ih ihrest =>
    obtain ⟨hts, hus⟩ := List.forall_mem_append.1 hts
    exact List.forall_mem_cons.2 ⟨.expr (ih hts), ihrest hus⟩
  | declareOnly _ hx _ => exact .declareOnly ((hts _ (by simp)).isName hx)
  | declare _ hx _ _ _ ih =>
    exact .declare ((hts _ (by simp)).isName hx) (ih fun t ht => hts t (by simp [ht]))
  | define _ hx _ _ _ _ _ _ ihparams ihbody =>
    exact .define ((hts _ (by simp)).isName hx) (ihparams fun t ht => hts t (by simp [ht]))
      (ihbody fun t ht => hts t (by simp [ht]))
  | exprStatement _ _ ih => exact .expr (ih fun t ht => hts t (by simp [ht]))
  | expr _ ih | operand _ ih | list _ ih => exact ih hts
  | assign _ _ _ ih ihvalue =>
    exact .assign (ih fun t ht => hts t (by simp [ht])) (ihvalue fun t ht => hts t (by simp [ht]))
  | object _ _ _ _ ih ihss =>
    have hentries := ih fun t ht => hts t (by simp [ht])
    exact writable_applySuffixes
      (.object (fun p hp => (hentries p hp).1) fun p hp => (hentries p hp).2)
      (ihss fun t ht => hts t (by simp [ht]))
  | shorthand hx => exact ⟨(hts _ (by simp)).isName hx, fun _ he => nomatch he⟩
  | keyed hx _ _ ih =>
    refine ⟨(hts _ (by simp)).isName hx, fun e he => ?_⟩
    obtain rfl := Option.some.inj he
    exact ih fun t ht => hts t (by simp [ht])
  | sum _ _ ih ihops | product _ _ ih ihops =>
    obtain ⟨hts, hus⟩ := List.forall_mem_append.1 hts
    exact writable_applyOperations (ih hts) (ihops hus)
  | sumStep _ _ _ ih ihops | productStep _ _ _ ih ihops =>
    exact List.forall_mem_cons.2
      ⟨ih fun t ht => hts t (by simp [ht]), ihops fun t ht => hts t (by simp [ht])⟩
  | chain _ _ ih ihss =>
    obtain ⟨hts, hus⟩ := List.forall_mem_append.1 hts
    exact writable_applySuffixes (ih hts) (ihss hus)
  | dot _ _ ih | index _ _ _ ih | call _ _ _ ih | parens _ _ _ ih | wordParens _ _ _ ih =>
    exact ih fun t ht => hts t (by simp [ht])
  | name hx => exact .name ((hts _ (by simp)).isName hx)
  | word hx => exact (hts _ (by simp)).isName hx
  | number hdigits _ => exact .number hdigits (Number.parse?_eq_some_of_isDigitRun hdigits)
  | one _ ih => exact List.forall_mem_singleton.2 (ih hts)
  | more _ _ _ ih ihrest =>
    exact List.forall_mem_cons.2
      ⟨ih fun t ht => hts t (by simp [ht]), ihrest fun t ht => hts t (by simp [ht])⟩

/-! ## Programs that are written -/

/-- There are words that the rule derives with the tree. -/
def Written (r : Rule) (x : r.Tree) : Prop := ∃ ts, (∀ t ∈ ts, t.IsWord) ∧ Derives r ts x

/-- Words between two tokens of kinds with one spelling. -/
theorem isWord_between {ts : List Token} {l r : Token.Kind} (hts : ∀ t ∈ ts, t.IsWord)
    (hl : l ∉ [.eof, .name, .number]) (hr : r ∉ [.eof, .name, .number]) :
    ∀ t ∈ Token.ofKind l :: (ts ++ [.ofKind r]), t.IsWord := by
  refine List.forall_mem_cons.2 ⟨Token.isWord_ofKind hl, List.forall_mem_append.2 ⟨hts, ?_⟩⟩
  exact List.forall_mem_singleton.2 (Token.isWord_ofKind hr)

/-- Words on both sides of a token of a kind with one spelling. -/
theorem isWord_around {ts us : List Token} {k : Token.Kind} (hts : ∀ t ∈ ts, t.IsWord)
    (hk : k ∉ [.eof, .name, .number]) (hus : ∀ t ∈ us, t.IsWord) :
    ∀ t ∈ ts ++ Token.ofKind k :: us, t.IsWord :=
  List.forall_mem_append.2 ⟨hts, List.forall_mem_cons.2 ⟨Token.isWord_ofKind hk, hus⟩⟩

namespace Written

variable {e : Expr}

theorem name {x : String} (hx : Text.IsName x) : Written .primary (Expr.name x) :=
  ⟨[⟨.name, x, 0⟩], List.forall_mem_singleton.2 (Token.isWord_name hx 0), .name rfl⟩

theorem word {x : String} (hx : Text.IsName x) : Written .word x :=
  ⟨[⟨.name, x, 0⟩], List.forall_mem_singleton.2 (Token.isWord_name hx 0), .word rfl⟩

theorem number {text : String} (h : Number.IsDigitRun text) :
    Written .primary (Expr.number (Number.ofDigitRun text)) :=
  ⟨[⟨.number, text, 0⟩], List.forall_mem_singleton.2 (Token.isWord_number h 0), .number h rfl⟩

theorem parens (h : Written .expr e) : Written .primary e := by
  obtain ⟨ts, hts, h⟩ := h
  exact ⟨_, isWord_between hts (l := .leftParen) (r := .rightParen) (by decide) (by decide),
    .parens rfl h rfl⟩

theorem expr (h : Written .primary e) : Written .expr e := by
  obtain ⟨ts, hts, h⟩ := h
  exact ⟨ts, hts, h.expr_of_primary⟩

theorem assign {target value : Expr} (htarget : Written .primary target)
    (hvalue : Written .primary value) : Written .primary (Expr.assign target value) := by
  obtain ⟨ts, hts, htarget⟩ := htarget
  obtain ⟨us, hus, hvalue⟩ := hvalue
  have hassign : Derives .expr (ts ++ .ofKind .equal :: us) (Expr.assign target value) :=
    .assign htarget.chain_of_primary.operand_of_chain rfl hvalue.expr_of_primary
  exact .parens ⟨_, isWord_around hts (by decide) hus, hassign⟩

theorem binary {o : Operator} {lhs rhs : Expr} (hlhs : Written .primary lhs)
    (hrhs : Written .primary rhs) : Written .primary (Expr.binary o lhs rhs) := by
  obtain ⟨ts, hts, hlhs⟩ := hlhs
  obtain ⟨us, hus, hrhs⟩ := hrhs
  have hsum (k : Token.Kind) (hk : k ∉ [.eof, .name, .number])
      (ho : Operator.ofSumKind? k = some o) : Written .primary (Expr.binary o lhs rhs) := by
    have htail : Derives .sumTail (.ofKind k :: (us ++ [])) [(o, rhs)] :=
      .sumStep ho hrhs.chain_of_primary.product_of_chain .sumEnd
    rw [List.append_nil] at htail
    exact .parens ⟨_, isWord_around hts hk hus,
      .expr (.operand (.sum hlhs.chain_of_primary.product_of_chain htail))⟩
  have hproduct (k : Token.Kind) (hk : k ∉ [.eof, .name, .number])
      (ho : Operator.ofProductKind? k = some o) : Written .primary (Expr.binary o lhs rhs) := by
    have htail : Derives .productTail (.ofKind k :: (us ++ [])) [(o, rhs)] :=
      .productStep ho hrhs.chain_of_primary .productEnd
    rw [List.append_nil] at htail
    exact .parens ⟨_, isWord_around hts hk hus,
      .expr (.operand (.sum_of_product (.product hlhs.chain_of_primary htail)))⟩
  cases o with
  | add => exact hsum .plus (by decide) rfl
  | sub => exact hsum .minus (by decide) rfl
  | mul => exact hproduct .star (by decide) rfl
  | div => exact hproduct .slash (by decide) rfl
  | mod => exact hproduct .percent (by decide) rfl

/-- An expression with a suffix, in parentheses. -/
theorem suffixed {s : Suffix} (h : Written .primary e) (hs : Written .suffix s) :
    Written .primary (s.apply e) := by
  obtain ⟨ts, hts, h⟩ := h
  obtain ⟨us, hus, hs⟩ := hs
  have hchain : Derives .chain (ts ++ (us ++ [])) (applySuffixes e [s]) :=
    .chain h (.suffixes hs .noSuffix)
  rw [List.append_nil] at hchain
  exact .parens ⟨ts ++ us, List.forall_mem_append.2 ⟨hts, hus⟩, .expr hchain.operand_of_chain⟩

theorem dot {x : String} (hx : Text.IsName x) : Written .suffix (Suffix.dot x) := by
  obtain ⟨ts, hts, h⟩ := word hx
  exact ⟨_, List.forall_mem_cons.2 ⟨Token.isWord_ofKind (k := .dot) (by decide), hts⟩, .dot rfl h⟩

theorem index (h : Written .expr e) : Written .suffix (Suffix.index e) := by
  obtain ⟨ts, hts, h⟩ := h
  exact ⟨_, isWord_between hts (l := .leftBracket) (r := .rightBracket) (by decide) (by decide),
    .index rfl h rfl⟩

theorem call {arguments : List Expr} (h : Written (.list .expr) arguments) :
    Written .suffix (Suffix.call arguments) := by
  obtain ⟨ts, hts, h⟩ := h
  exact ⟨_, isWord_between hts (l := .leftParen) (r := .rightParen) (by decide) (by decide),
    .call rfl h rfl⟩

theorem separated {item : Rule} {x : item.Tree} {xs : List item.Tree}
    (h : ∀ y ∈ x :: xs, Written item y) : Written (.separated item) (x :: xs) := by
  induction xs generalizing x with
  | nil =>
    obtain ⟨ts, hts, hx⟩ := h x List.mem_cons_self
    exact ⟨ts, hts, .one hx⟩
  | cons y ys ih =>
    obtain ⟨hx, hys⟩ := List.forall_mem_cons.1 h
    obtain ⟨ts, hts, hx⟩ := hx
    obtain ⟨us, hus, hys⟩ := ih hys
    exact ⟨_, isWord_around hts (k := .comma) (by decide) hus, .more hx rfl hys⟩

theorem list {item : Rule} {xs : List item.Tree} (h : ∀ x ∈ xs, Written item x) :
    Written (.list item) xs := by
  cases xs with
  | nil => exact ⟨[], by simp, .emptyList⟩
  | cons x xs =>
    obtain ⟨ts, hts, h⟩ := separated h
    exact ⟨ts, hts, .list h⟩

theorem object {entries : List Property} (h : Written (.list .entry) entries) :
    Written .primary (Expr.object entries) := by
  obtain ⟨ts, hts, h⟩ := h
  have hobject : Derives .operand (.ofKind .leftCurly :: (ts ++ .ofKind .rightCurly :: []))
      (Expr.object entries) := .object rfl h rfl .noSuffix
  exact .parens ⟨_, isWord_between hts (by decide) (by decide), .expr hobject⟩

end Written

end Grammar

open Grammar

/-- A writable expression can be written in parentheses. -/
theorem Expr.Writable.written {e : Expr} (h : e.Writable) : Written .primary e := by
  induction h with
  | number hdigits hx =>
    obtain rfl := Option.some.inj ((Number.parse?_eq_some_of_isDigitRun hdigits).symm.trans hx)
    exact .number hdigits
  | name hx => exact .name hx
  | assign _ _ ihtarget ihvalue => exact ihtarget.assign ihvalue
  | binary _ _ ihlhs ihrhs => exact ihlhs.binary ihrhs
  | call _ _ ih iharguments => exact ih.suffixed (.call (.list fun e he => (iharguments e he).expr))
  | dot _ hx ih => exact ih.suffixed (.dot hx)
  | index _ _ ih ihkey => exact ih.suffixed (.index ihkey.expr)
  | object hkeys _ ihvalues =>
    refine .object (.list fun p hp => ?_)
    have hkey := List.forall_mem_singleton.2 (Token.isWord_name (hkeys p hp) 0)
    cases p with
    | shorthand key => exact ⟨_, hkey, .shorthand rfl⟩
    | keyed key value =>
      obtain ⟨ts, hts, h⟩ := (ihvalues _ hp value rfl).expr
      exact ⟨_, isWord_around hkey (k := .colon) (by decide) hts, .keyed rfl rfl h⟩

theorem Grammar.Written.statements {body : List Stmt} (h : ∀ s ∈ body, Written .statement s) :
    Written .statements body := by
  induction body with
  | nil => exact ⟨[], by simp, .noStatement⟩
  | cons s body ih =>
    obtain ⟨⟨ts, hts, hs⟩, hbody⟩ := List.forall_mem_cons.1 h
    obtain ⟨us, hus, hbody⟩ := ih hbody
    exact ⟨ts ++ us, List.forall_mem_append.2 ⟨hts, hus⟩, .statements hs hbody⟩

/-- A writable statement can be written so that anything may follow it. -/
theorem Stmt.Writable.written {s : Stmt} (h : s.Writable) : Written .statement s := by
  have hof (k : Token.Kind) (hk : k ∉ [.eof, .name, .number]) := Token.isWord_ofKind hk
  induction h with
  | @declareOnly x hx =>
    have hwords : ∀ t ∈ [Token.ofKind .letWord, ⟨.name, x, 0⟩, .ofKind .semicolon], t.IsWord := by
      simp [hof, Token.isWord_name hx]
    exact ⟨_, hwords, .declareOnly rfl rfl rfl⟩
  | @declare constant x init hx hinit =>
    obtain ⟨ts, hts, hinit⟩ := hinit.written.expr
    have hwords : ∀ t ∈ .ofKind (if constant then .constWord else .letWord) :: ⟨.name, x, 0⟩ ::
        .ofKind .equal :: (ts ++ [.ofKind .semicolon]), t.IsWord := by
      cases constant <;> simpa [hof, Token.isWord_name hx, or_imp, forall_and] using hts
    exact ⟨_, hwords, .declare rfl rfl rfl hinit rfl⟩
  | @define x params body hx hparams _ ihbody =>
    obtain ⟨ts, hts, hparams⟩ := Written.list fun y hy => Written.word (hparams y hy)
    obtain ⟨us, hus, hbody⟩ := Written.statements ihbody
    have hwords : ∀ t ∈ .ofKind .fnWord :: ⟨.name, x, 0⟩ :: .ofKind .leftParen ::
        (ts ++ .ofKind .rightParen :: .ofKind .leftCurly :: (us ++ [.ofKind .rightCurly])),
        t.IsWord := by
      simpa [hof, Token.isWord_name hx, or_imp, forall_and] using And.intro hts hus
    exact ⟨_, hwords, .define rfl rfl rfl hparams rfl rfl hbody rfl⟩
  | expr he =>
    obtain ⟨ts, hts, he⟩ := he.written.expr
    exact ⟨ts ++ [.ofKind .semicolon], List.forall_mem_append.2 ⟨hts, by simp [hof]⟩,
      .exprStatement he rfl⟩

/-- The programs that the grammar derives some words with are those that are writable. -/
theorem Program.written_iff_writable {p : Program} : Written .program p ↔ p.Writable := by
  refine ⟨fun ⟨ts, hts, h⟩ => h.writable hts, fun h => ?_⟩
  obtain ⟨ts, hts, hbody⟩ := Written.statements fun s hs => (h s hs).written
  exact ⟨ts, hts, .program hbody⟩

/-! ## The image of the parser -/

namespace Program

/-- Words that are derived with a program can be laid out as a text of it. -/
theorem exists_source_of_written {p : Program} (h : Written .program p) :
    ∃ source, ofSource source = .ok p := by
  obtain ⟨ts, hts, hp⟩ := h
  obtain ⟨source, hsource⟩ := Spells.exists_of_isWord hts
  exact ⟨source, ofSource_of_spells hsource hp⟩

theorem written_of_ofSource {source : String} {p : Program} (h : ofSource source = .ok p) :
    Written .program p := by
  obtain ⟨final, htokens, hp⟩ := exists_of_ofSource h
  exact ⟨_, Token.isWord_of_ofSource htokens, hp⟩

end Program

/-- A text that is not a list of tokens has a stray character in it. -/
theorem Lexer.cause_of_tokensFrom {line : Nat} {segs : List Segment} {e : SyntaxError}
    (h : tokensFrom line segs = .error e) : ∃ c, e.cause = .unexpectedChar c := by
  induction segs generalizing line with
  | nil => cases h
  | cons seg segs ih =>
    cases seg with
    | newline | blank | comment => exact ih h
    | stray c => exact ⟨c, by rw [← Except.error.inj h]⟩
    | token kind text =>
      rw [tokensFrom] at h
      cases htokens : tokensFrom line segs with
      | error e' =>
        rw [htokens] at h
        exact ih (htokens.trans h)
      | ok ts =>
        rw [htokens] at h
        cases h

namespace Program

/-- No number of a text is bad, since the lexer takes runs of digits for numbers and nothing
else. -/
theorem cause_ne_badNumber {source : String} {e : SyntaxError} (h : ofSource source = .error e)
    (text : String) : e.cause ≠ .badNumber text := by
  cases hts : Token.ofSource source with
  | error e' =>
    rw [ofSource, hts] at h
    obtain rfl : e' = e := Except.error.inj h
    obtain ⟨c, hc⟩ := Lexer.cause_of_tokensFrom hts
    simp [hc]
  | ok ts =>
    obtain ⟨body, final, rfl, hbody⟩ := Token.exists_of_ofSource hts
    rw [ofSource_of_tokens hts] at h
    let R (t t' : Token) : Prop := t = t' ∧ (t.kind = .number → Number.IsDigitRun t.text)
    have hR (t t' : Token) (ht : R t t') : t.SameWord t' := ht.1 ▸ .refl t
    have hsame : List.Forall₂ R body body :=
      List.forall₂_same.2 fun t ht => ⟨rfl, (hbody t ht).2⟩
    have heof : R (.eof final) (.eof final) := ⟨rfl, Token.Kind.noConfusion⟩
    obtain ⟨p, hp, -⟩ | ⟨t, t', cause, ⟨-, hdigits⟩, hfits, herror, -⟩ :=
      ofTokens_alike hR hsame heof rfl
    · cases h.symm.trans hp
    · rintro hbad
      obtain rfl : e = ⟨t.line, cause⟩ := Except.error.inj (h.symm.trans herror)
      obtain ⟨hnumber, hnone⟩ := hfits text hbad
      cases hnone.symm.trans (Number.parse?_eq_some_of_isDigitRun (hdigits hnumber))

/-- The programs of source texts are the writable ones, and no source text is rejected for a bad
number. -/
theorem ofSource_image :
    (∀ p, (∃ source, ofSource source = .ok p) ↔ p.Writable) ∧
      ∀ source line text, ofSource source ≠ .error ⟨line, .badNumber text⟩ := by
  refine ⟨fun p => ⟨fun ⟨_, h⟩ => ?_, fun h => ?_⟩, fun _ _ text h => ?_⟩
  · exact written_iff_writable.1 (written_of_ofSource h)
  · exact exists_source_of_written (written_iff_writable.2 h)
  · exact cause_ne_badNumber h text rfl

end Program

end ScopeScript
