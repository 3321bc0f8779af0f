import ScopeScript.Proofs.Syntax.Display

/-!
# Chains of operations

A chain is an operand with further operands behind it, each behind an operator.  An operand is a run
of digits or a chain in parentheses.  `inPrecedence` goes through a chain in the order of
precedence: each run of operators that bind tightly from the left, and then what these give, from
the left.

A text that has the words of a chain with any blanks between them is the program of that order
(`Arithmetic.ofSource_chain`).
-/

namespace ScopeScript

open Grammar Segment

/-! ## Operators -/

namespace Operator

/-- The operator is one of a product. -/
def IsTight (o : Operator) : Prop := o = mul ∨ o = div ∨ o = mod

instance : DecidablePred IsTight := fun _ => inferInstanceAs (Decidable (_ ∨ _))

/-- The kind of the token of an operator. -/
def kind : Operator → Token.Kind
  | add => .plus
  | sub => .minus
  | mul => .star
  | div => .slash
  | mod => .percent

theorem ofProductKind?_kind {o : Operator} (h : o.IsTight) : ofProductKind? o.kind = some o := by
  obtain rfl | rfl | rfl := h
  all_goals rfl

theorem ofSumKind?_kind {o : Operator} (h : ¬o.IsTight) : ofSumKind? o.kind = some o := by
  cases o with
  | add | sub => rfl
  | mul => exact absurd (.inl rfl) h
  | div => exact absurd (.inr (.inl rfl)) h
  | mod => exact absurd (.inr (.inr rfl)) h

end Operator

namespace Arithmetic

/-! ## Precedence -/

section Precedence

variable {α β : Type}

/-- Goes through operands behind `first` from the left. -/
def fromLeft (apply : Operator → α → α → α) (first : α) (links : List (Operator × α)) : α :=
  links.foldl (fun a link => apply link.1 a link.2) first

/-- The operands up to the first operator that does not bind tightly, and then each run of operands
that starts behind such an operator. -/
def cut : List (Operator × α) → List (Operator × α) × List (Operator × α × List (Operator × α))
  | [] => ([], [])
  | (o, a) :: rest =>
    if o.IsTight then ((o, a) :: (cut rest).1, (cut rest).2)
    else ([], (o, a, (cut rest).1) :: (cut rest).2)

/-- Goes through a chain: each run from the left, and what the runs give from the left. -/
def inPrecedence (apply : Operator → α → α → α) (first : α) (links : List (Operator × α)) : α :=
  fromLeft apply (fromLeft apply first (cut links).1)
    ((cut links).2.map fun run => (run.1, fromLeft apply run.2.1 run.2.2))

end Precedence

/-! ## Chains -/

/-- A run of digits, or a chain in parentheses. -/
inductive Operand where
  | digits (text : String) (h : Number.IsDigitRun text)
  | group (first : Operand) (links : List (Operator × Operand))

mutual

/-- What an operand gives, going through chains in the order of precedence. -/
def Operand.fold {α : Type} (number : Float → α) (apply : Operator → α → α → α) : Operand → α
  | .digits text _ => number (Number.ofDigitRun text)
  | .group first links =>
    inPrecedence apply (first.fold number apply) (foldLinks number apply links)

/-- What the operands in a chain behind the first one give. -/
def foldLinks {α : Type} (number : Float → α) (apply : Operator → α → α → α) :
    List (Operator × Operand) → List (Operator × α)
  | [] => []
  | (o, a) :: rest => (o, a.fold number apply) :: foldLinks number apply rest

end

mutual

/-- The tokens of an operand. -/
def Operand.words : Operand → List Token
  | .digits text _ => [⟨.number, text, 0⟩]
  | .group first links =>
    .ofKind .leftParen :: (first.words ++ (linkWords links ++ [.ofKind .rightParen]))

/-- The tokens of operands and of the operators in front of them. -/
def linkWords : List (Operator × Operand) → List Token
  | [] => []
  | (o, a) :: rest => .ofKind o.kind :: (a.words ++ linkWords rest)

end

/-- The expression that an operand is. -/
def Operand.expr (a : Operand) : Expr := a.fold .number .binary

mutual

theorem Operand.induction {P : Operand → Prop} (digits : ∀ text h, P (.digits text h))
    (group : ∀ first links, P first → (∀ link ∈ links, P link.2) → P (.group first links)) :
    (a : Operand) → P a
  | .digits text h => digits text h
  | .group first links =>
    group first links (Operand.induction digits group first) (links_induction digits group links)

theorem links_induction {P : Operand → Prop} (digits : ∀ text h, P (.digits text h))
    (group : ∀ first links, P first → (∀ link ∈ links, P link.2) → P (.group first links)) :
    (links : List (Operator × Operand)) → ∀ link ∈ links, P link.2
  | [] => nofun
  | (_, a) :: rest =>
    List.forall_mem_cons.2 ⟨Operand.induction digits group a, links_induction digits group rest⟩

end

/-! ## Operations that do the same -/

section Homomorphisms

variable {α β : Type} {f : Operator → α → α → α} {g : Operator → β → β → β} {h : α → β}
  (happly : ∀ o a b, h (f o a b) = g o (h a) (h b))
include happly

theorem map_fromLeft (first : α) (links : List (Operator × α)) :
    h (fromLeft f first links) =
      fromLeft g (h first) (links.map fun link => (link.1, h link.2)) := by
  induction links generalizing first with
  | nil => rfl
  | cons link rest ih =>
    have hrest := ih (f link.1 first link.2)
    rw [happly] at hrest
    exact hrest

omit happly in
theorem cut_map (h : α → β) (links : List (Operator × α)) :
    cut (links.map fun link => (link.1, h link.2)) =
      ((cut links).1.map fun link => (link.1, h link.2),
        (cut links).2.map fun run =>
          (run.1, h run.2.1, run.2.2.map fun link => (link.1, h link.2))) := by
  induction links with
  | nil => rfl
  | cons link rest ih =>
    obtain ⟨o, a⟩ := link
    rw [List.map_cons, cut, cut, ih]
    by_cases ho : o.IsTight
    · rw [if_pos ho, if_pos ho]
      rfl
    · rw [if_neg ho, if_neg ho]
      rfl

theorem map_inPrecedence (first : α) (links : List (Operator × α)) :
    h (inPrecedence f first links) =
      inPrecedence g (h first) (links.map fun link => (link.1, h link.2)) := by
  rw [inPrecedence, inPrecedence, cut_map, map_fromLeft happly, map_fromLeft happly]
  simp only [List.map_map, Function.comp_def, map_fromLeft happly]

variable {number : Float → α} {number' : Float → β}

omit happly in
theorem map_foldLinks {links : List (Operator × Operand)}
    (hlinks : ∀ link ∈ links, h (link.2.fold number f) = link.2.fold number' g) :
    (foldLinks number f links).map (fun link => (link.1, h link.2)) =
      foldLinks number' g links := by
  induction links with
  | nil => rfl
  | cons link rest ih =>
    obtain ⟨o, a⟩ := link
    obtain ⟨ha, hrest⟩ := List.forall_mem_cons.1 hlinks
    rw [foldLinks, foldLinks, List.map_cons, ih hrest, ha]

/-- Where the meanings of digits and of operators correspond, those of operands do. -/
theorem map_fold (hnumber : ∀ x, h (number x) = number' x) (a : Operand) :
    h (a.fold number f) = a.fold number' g := by
  induction a using Operand.induction with
  | digits text hdigits => exact hnumber _
  | group first links hfirst hlinks =>
    rw [Operand.fold, Operand.fold, map_inPrecedence happly, hfirst,
      map_foldLinks hlinks]

end Homomorphisms

/-! ## The tree of a chain -/

section Trees

variable {first : Operand} {links : List (Operator × Operand)}

theorem derives_links (h : ∀ link ∈ links, Derives .primary link.2.words link.2.expr) :
    ∃ ts us, linkWords links = ts ++ us ∧
      Derives .productTail ts (cut (foldLinks .number .binary links)).1 ∧
      Derives .sumTail us ((cut (foldLinks .number .binary links)).2.map
        fun run => (run.1, fromLeft .binary run.2.1 run.2.2)) := by
  induction links with
  | nil => exact ⟨[], [], rfl, .productEnd, .sumEnd⟩
  | cons link rest ih =>
    obtain ⟨o, a⟩ := link
    obtain ⟨ha, hrest⟩ := List.forall_mem_cons.1 h
    obtain ⟨ts, us, hwords, hts, hus⟩ := ih hrest
    have hchain : Derives .chain a.words a.expr := ha.chain_of_primary
    rw [linkWords, hwords, foldLinks]
    by_cases ho : o.IsTight
    · rw [cut, if_pos ho]
      refine ⟨.ofKind o.kind :: (a.words ++ ts), us, by simp, ?_, hus⟩
      exact .productStep (Operator.ofProductKind?_kind ho) hchain hts
    · rw [cut, if_neg ho]
      refine ⟨[], .ofKind o.kind :: (a.words ++ ts ++ us), by simp, .productEnd, ?_⟩
      exact .sumStep (Operator.ofSumKind?_kind ho) (.product hchain hts) hus

theorem derives_chain (hfirst : Derives .primary first.words first.expr)
    (hlinks : ∀ link ∈ links, Derives .primary link.2.words link.2.expr) :
    Derives .expr (first.words ++ linkWords links)
      (inPrecedence .binary first.expr (foldLinks .number .binary links)) := by
  obtain ⟨ts, us, hwords, hts, hus⟩ := derives_links hlinks
  rw [hwords, ← List.append_assoc]
  exact .expr (.operand (.sum (.product hfirst.chain_of_primary hts) hus))

theorem derives_operand (a : Operand) : Derives .primary a.words a.expr := by
  induction a using Operand.induction with
  | digits text h => exact .number h rfl
  | group first links hfirst hlinks =>
    have hchain := derives_chain hfirst hlinks
    rw [Operand.words, ← List.append_assoc]
    exact .parens rfl hchain rfl

end Trees

/-! ## Layouts with blanks -/

/-- The character is a blank, a tab, or one that ends a line. -/
def IsGap (c : Char) : Prop := isBlank c = true ∨ c = '\n'

/-- The text consists of the given texts with any gaps around them. -/
inductive Spaced : List String → List Char → Prop
  | nil : Spaced [] []
  | gap {texts : List String} {c : Char} {cs : List Char} (hc : IsGap c) (h : Spaced texts cs) :
      Spaced texts (c :: cs)
  | word {text : String} {texts : List String} {cs : List Char} (h : Spaced texts cs) :
      Spaced (text :: texts) (text.toList ++ cs)

/-- Operands and operators take turns, starting with an operator if something stands in front. -/
inductive Alternates : Bool → List Token → Prop
  | nil (behind : Bool) : Alternates behind []
  | digits {text : String} {ts : List Token} (h : Number.IsDigitRun text)
      (hrest : Alternates true ts) : Alternates false (⟨.number, text, 0⟩ :: ts)
  | opening {ts : List Token} (hrest : Alternates false ts) :
      Alternates false (.ofKind .leftParen :: ts)
  | operator (o : Operator) {ts : List Token} (hrest : Alternates false ts) :
      Alternates true (.ofKind o.kind :: ts)
  | closing {ts : List Token} (hrest : Alternates true ts) :
      Alternates true (.ofKind .rightParen :: ts)

section Turns

variable {links : List (Operator × Operand)} {rest : List Token}

theorem alternates_links
    (h : ∀ link ∈ links, ∀ ts, Alternates true ts → Alternates false (link.2.words ++ ts))
    (hrest : Alternates true rest) : Alternates true (linkWords links ++ rest) := by
  induction links with
  | nil => exact hrest
  | cons link links ih =>
    obtain ⟨o, a⟩ := link
    obtain ⟨ha, hlinks⟩ := List.forall_mem_cons.1 h
    rw [linkWords, List.cons_append, List.append_assoc]
    exact .operator o (ha _ (ih hlinks))

theorem alternates_operand (a : Operand) (hrest : Alternates true rest) :
    Alternates false (a.words ++ rest) := by
  induction a using Operand.induction generalizing rest with
  | digits text h => exact .digits h hrest
  | group first links hfirst hlinks =>
    have hclose : Alternates true (linkWords links ++ .ofKind .rightParen :: rest) :=
      alternates_links (fun link hlink ts hts => hlinks link hlink hts) (.closing hrest)
    have hgroup := Alternates.opening (hfirst hclose)
    rw [Operand.words]
    simpa using hgroup

end Turns

/-- The character goes on with an operand in front of it, or makes a comment of an operator. -/
def GoesOn : Bool → Char → Prop
  | true, c => c.isDigit = true
  | false, c => c = '/'

instance : (behind : Bool) → DecidablePred (GoesOn behind)
  | true => fun c => inferInstanceAs (Decidable (c.isDigit = true))
  | false => fun c => inferInstanceAs (Decidable (c = '/'))

theorem not_goesOn_of_isGap {behind : Bool} {c : Char} (hc : IsGap c) : ¬GoesOn behind c := by
  have hcases : c = ' ' ∨ c = '\t' ∨ c = '\r' ∨ c = '\n' := by
    simpa [IsGap, isBlank, or_assoc] using hc
  obtain rfl | rfl | rfl | rfl := hcases
  all_goals revert behind; decide

theorem IsGap.spells {c : Char} {cs : List Char} {words : List Token} (hc : IsGap c)
    (h : Spells cs words) : Spells (c :: cs) words := by
  obtain hblank | rfl := hc
  · exact h.blank hblank
  · exact h.newline

theorem stops_cons {p : Char → Prop} {c : Char} (hc : ¬p c) (cs : List Char) :
    Stops p (c :: cs) := by
  intro d hd
  obtain rfl : c = d := Option.some.inj hd
  exact hc

theorem stops_digits {text : String} (h : Number.IsDigitRun text) (cs : List Char) :
    Stops (GoesOn false) (text.toList ++ cs) := by
  obtain ⟨hne, hdigits⟩ := h
  obtain ⟨d, ds, hds⟩ := List.exists_cons_of_ne_nil hne
  rw [hds] at hdigits ⊢
  refine stops_cons ?_ _
  rintro rfl
  exact absurd (hdigits '/' List.mem_cons_self) (by decide)

theorem stops_operator (o : Operator) (cs : List Char) :
    Stops (GoesOn true) (o.kind.label.toList ++ cs) := by
  cases o with
  | _ => exact stops_cons (by decide) cs

theorem wellCut_of_ofChar? {kind : Token.Kind} {c : Char} (h : Token.Kind.ofChar? c = some kind)
    (hc : c ≠ '/') (cs : List Char) : (Segment.token kind [c]).WellCut cs :=
  .inl ⟨c, rfl, h, fun hslash => absurd hslash hc⟩

theorem wellCut_operator (o : Operator) {cs : List Char} (h : Stops (GoesOn false) cs) :
    (Segment.token o.kind o.kind.label.toList).WellCut cs := by
  cases o with
  | div => exact .inl ⟨'/', rfl, rfl, fun _ => h⟩
  | _ => exact wellCut_of_ofChar? rfl (by decide) cs

/-- Each token ends where the next one starts, even if there is no gap between them. -/
theorem spells_of_alternates {behind : Bool} {ts : List Token} {cs : List Char}
    (h : Alternates behind ts) (hcs : Spaced (ts.map Token.text) cs) :
    Spells cs ts ∧ Stops (GoesOn behind) cs := by
  generalize htexts : ts.map Token.text = texts at hcs
  induction hcs generalizing behind ts with
  | nil =>
    obtain rfl := List.map_eq_nil_iff.1 htexts
    exact ⟨.nil, .nil _⟩
  | gap hc _ ih =>
    exact ⟨hc.spells (ih h htexts).1, stops_cons (not_goesOn_of_isGap hc) _⟩
  | @word text texts cs _ ih =>
    cases h with
    | nil => cases htexts
    | @digits text _ hdigits hrest =>
      obtain ⟨rfl, rfl⟩ := List.cons.inj htexts
      obtain ⟨hspells, hends⟩ := ih hrest rfl
      have hcut : (Segment.token .number text.toList).WellCut cs :=
        .inr (.inl ⟨rfl, hdigits.1, hdigits.2, hends⟩)
      exact ⟨hspells.token (t := ⟨.number, text, 0⟩) hcut, stops_digits hdigits _⟩
    | opening hrest =>
      obtain ⟨rfl, rfl⟩ := List.cons.inj htexts
      have hcut := wellCut_of_ofChar? (c := '(') rfl (by decide) cs
      exact ⟨(ih hrest rfl).1.token (t := .ofKind .leftParen) hcut, stops_cons (by decide) _⟩
    | operator o hrest =>
      obtain ⟨rfl, rfl⟩ := List.cons.inj htexts
      obtain ⟨hspells, hends⟩ := ih hrest rfl
      have hcut := wellCut_operator o hends
      exact ⟨hspells.token (t := .ofKind o.kind) hcut, stops_operator o _⟩
    | closing hrest =>
      obtain ⟨rfl, rfl⟩ := List.cons.inj htexts
      have hcut := wellCut_of_ofChar? (c := ')') rfl (by decide) cs
      exact ⟨(ih hrest rfl).1.token (t := .ofKind .rightParen) hcut, stops_cons (by decide) _⟩

/-- A text that has the words of a chain with any gaps between them is a program with nothing but
the expression that its order of precedence gives. -/
theorem ofSource_chain (first : Operand) (links : List (Operator × Operand)) {source : String}
    (h : Spaced ((first.words ++ linkWords links).map Token.text) source.toList) :
    Program.ofSource source =
      .ok ⟨[.expr (inPrecedence .binary first.expr (foldLinks .number .binary links))]⟩ := by
  have hlinks : Alternates true (linkWords links) := by
    simpa using alternates_links (fun link _ ts hts => alternates_operand link.2 hts) (.nil true)
  have halternates : Alternates false (first.words ++ linkWords links) :=
    alternates_operand first hlinks
  have hderives := derives_chain (derives_operand first)
    fun link (_ : link ∈ links) => derives_operand link.2
  have hprogram := Derives.bareStatements hderives .noStatement nofun
  rw [List.append_nil] at hprogram
  exact Program.ofSource_of_spells (spells_of_alternates halternates h).1 (.program hprogram)

end Arithmetic

end ScopeScript
