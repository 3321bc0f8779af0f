import ScopeScript.Proofs.Run.Forwarding
import ScopeScript.Proofs.Store.Room

/-!
# Room in runs

Code is run in a frame with room for the functions that it defines.  The frame of a call lies below
the one that the function captured, wherever the call is made, so that the body of the function has
room in it.  Hence a run keeps a store roomy, and meets no frame that was not made.
-/

namespace ScopeScript.Contract

open Store

variable {limit : Option Nat} {held : List Closure}

/-- There is room within the limit for all functions, those that the host holds among them, and for
the code that is run. -/
def roomy (limit : Option Nat) (held : List Closure) : Contract where
  store s := s.Roomy limit ∧ ∀ c ∈ held, s.Fits limit c
  value s v := ∀ c ∈ v.closures, s.Fits limit c
  frame s f := f < s.frames.size
  expr _ := True
  stmt s f stmt := s.HasRoom limit f stmt.nesting
  halt h := ∀ g, h ≠ .missingFrame g

theorem isLawful_roomy (limit : Option Nat) (held : List Closure) :
    (roomy limit held).IsLawful where
  value_mono hst hv c hc := hst.hasRoom (hv c hc)
  frame_mono hst hf := Nat.lt_of_lt_of_le hf hst.size_le
  stmt_mono hst hstmt := hst.hasRoom hstmt
  null _ _ hc := nomatch hc
  number _ _ _ hc := nomatch hc
  object _ _ hc := nomatch hc
  insert _ _ hfields hv c hc :=
    (List.mem_append.1 (Fields.closures_insert _ _ _ hc)).elim (hv c) (hfields c)
  property hfields key c hc := hfields c (Fields.closures_property _ key hc)
  parts _ _ _ := trivial
  dot _ := .inr nofun
  init _ := trivial
  statement _ := trivial
  fault _ := nofun
  tooDeep := nofun
  lookup hs hf x := by
    refine ⟨fun v hv c hc => hs.1.functions c (has_of_lookup hv hc), fun h hx => ?_⟩
    exact ne_missingFrame_of_lookup hs.1.parented hf hx
  assign hs hf hv x := by
    obtain ⟨hroomy, hheld⟩ := hs
    refine ⟨fun t ht => ⟨hroomy.assign hv ht, fun c hc => ?_⟩, fun h hx => ?_⟩
    · exact (keeps_assign ht).hasRoom (hheld c hc)
    · exact ne_missingFrame_of_assign hroomy.parented hf hx
  declare hs hf hv x constant := by
    obtain ⟨hroomy, hheld⟩ := hs
    refine ⟨fun t ht => ⟨hroomy.declare hv ht, fun c hc => ?_⟩, fun h hx => ?_⟩
    · exact (keeps_declare ht).hasRoom (hheld c hc)
    · exact ne_missingFrame_of_declare hf hx
  define := by
    intro s f x params body hs hf hstmt v
    obtain ⟨hroomy, hheld⟩ := hs
    have hnew : s.Keeps s.newClosure.2 := .refl s
    have hv : ∀ c ∈ v.closures, s.newClosure.2.Fits limit c := by
      intro c hc
      obtain rfl := List.mem_singleton.1 hc
      exact hnew.hasRoom hstmt
    refine ⟨⟨hroomy.newClosure, fun c hc => hnew.hasRoom (hheld c hc)⟩, fun t ht => ?_,
      fun h hx => ?_⟩
    · have hst := keeps_declare ht
      exact ⟨⟨hroomy.newClosure.declare hv ht, fun c hc => hst.hasRoom (hnew.hasRoom (hheld c hc))⟩,
        fun c hc => hst.hasRoom (hv c hc)⟩
    · exact ne_missingFrame_of_declare (s := s.newClosure.2) hf hx
  enter := by
    intro s c hs hc t
    obtain ⟨hroomy, hheld⟩ := hs
    have hfits : s.HasRoom limit c.frame (Stmt.nestingAll c.body + 1) := hc c List.mem_cons_self
    have hst := keeps_newFrame s (some c.frame)
    refine ⟨⟨hroomy.newFrame (hfits.mono (Nat.le_add_left _ _)), fun d hd => ?_⟩, ?_, ?_⟩
    · exact hst.hasRoom (hheld d hd)
    · show s.frames.size < (s.newFrame (some c.frame)).2.frames.size
      rw [size_newFrame]
      exact Nat.lt_succ_self _
    · exact fun stmt hmem => hfits.newFrame.mono (Stmt.nesting_le_nestingAll hmem)

theorem isFunctionwise_roomy (limit : Option Nat) (held : List Closure) :
    (roomy limit held).IsFunctionwise where
  toIsLawful := isLawful_roomy limit held
  value_iff := by simp [roomy, Value.closures]
  anyFault _ := nofun
  resolve hs hf _ _ hx := ne_missingFrame_of_resolve hs.1.parented hf hx
  missing _ hf h hx := absurd hx (frame_ne_error hf)

theorem isKept_roomy {host : Host} (hhost : host.ForwardingWith held) (limit : Option Nat) :
    (roomy limit held).IsKept host := by
  refine (isFunctionwise_roomy limit held).isKept hhost fun hs c hc d hd => ?_
  obtain rfl := List.mem_singleton.1 hd
  exact hs.2 d hc

end ScopeScript.Contract
