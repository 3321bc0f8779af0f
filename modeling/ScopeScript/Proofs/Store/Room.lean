import ScopeScript.Proofs.Store.Ancestry
import ScopeScript.Proofs.Store.Renaming

/-!
# Room for functions

A function is called in a frame below the one that it captured, and the functions that are defined
in its body capture that one.  So the depth to which definitions are nested in a body says how many
frames its calls put below the captured one.  A store is roomy if there is room for all of them
within a limit on the lengths of ancestries; without a limit this only says that all frames and
functions refer to frames that were made.
-/

namespace ScopeScript

/-! ## Nested definitions -/

mutual

/-- To what depth definitions are nested in a statement. -/
def Stmt.nesting : Stmt → Nat
  | .declare _ _ _ => 0
  | .define _ _ body => nestingAll body + 1
  | .expr _ => 0

/-- To what depth definitions are nested in a body. -/
def Stmt.nestingAll : List Stmt → Nat
  | [] => 0
  | stmt :: rest => max stmt.nesting (nestingAll rest)

end

theorem Stmt.nesting_le_nestingAll {stmt : Stmt} {body : List Stmt} (h : stmt ∈ body) :
    stmt.nesting ≤ nestingAll body := by
  induction body with
  | nil => cases h
  | cons first rest ih =>
    rw [nestingAll]
    obtain rfl | h := List.mem_cons.1 h
    · exact Nat.le_max_left _ _
    · exact Nat.le_trans (ih h) (Nat.le_max_right _ _)

namespace Store

variable {s t : Store} {f p : FrameId} {frame : Frame} {chain : List FrameId} {c : Closure}
  {x : String} {v : Value} {n m : Nat} {limit : Option Nat}

/-! ## Ancestries -/

theorem Ancestry.lt (h : s.Ancestry f chain) : f < s.frames.size := by
  cases h with
  | outermost hf _ => exact lt_size_of_getElem? hf
  | inner hf _ _ => exact lt_size_of_getElem? hf

theorem Keeps.ancestry (hst : s.Keeps t) (h : s.Ancestry f chain) : t.Ancestry f chain := by
  induction h with
  | outermost hf hparent =>
    obtain ⟨later, hlater, hkeeps⟩ := hst _ _ hf
    exact .outermost hlater (hkeeps.parent.trans hparent)
  | inner hf hparent _ ih =>
    obtain ⟨later, hlater, hkeeps⟩ := hst _ _ hf
    exact .inner hlater (hkeeps.parent.trans hparent) ih

theorem Ancestry.newFrame (h : s.Ancestry p chain) :
    (s.newFrame (some p)).2.Ancestry s.frames.size (s.frames.size :: chain) :=
  .inner (getElem?_newFrame_size s (some p)) rfl ((keeps_newFrame s (some p)).ancestry h)

/-- Each frame of an ancestry was made before the one in front of it. -/
theorem Ancestry.length_le (hs : s.Parented) (h : s.Ancestry f chain) : chain.length ≤ f + 1 := by
  induction h with
  | @outermost f frame hf hparent => simp
  | @inner f parent frame chain hf hparent _ ih =>
    have hlt : parent + 1 ≤ f := hs f frame parent hf hparent
    rw [List.length_cons]
    exact Nat.succ_le_succ (Nat.le_trans ih hlt)

theorem Ancestry.lt_of_mem (h : s.Ancestry f chain) {g : FrameId} (hg : g ∈ chain) :
    g < s.frames.size := by
  induction h with
  | outermost hf _ =>
    obtain rfl := List.mem_singleton.1 hg
    exact lt_size_of_getElem? hf
  | inner hf _ _ ih =>
    obtain rfl | hg := List.mem_cons.1 hg
    · exact lt_size_of_getElem? hf
    · exact ih hg

/-! ## Room -/

/-- With `n` more frames below `f`, its ancestry is within the limit. -/
def HasRoom (s : Store) (limit : Option Nat) (f : FrameId) (n : Nat) : Prop :=
  ∃ chain, s.Ancestry f chain ∧ ∀ l ∈ limit, chain.length + n ≤ l

theorem HasRoom.lt (h : s.HasRoom limit f n) : f < s.frames.size :=
  let ⟨_, hchain, _⟩ := h
  hchain.lt

theorem HasRoom.mono (h : s.HasRoom limit f n) (hm : m ≤ n) : s.HasRoom limit f m := by
  obtain ⟨chain, hchain, hlimit⟩ := h
  exact ⟨chain, hchain, fun l hl => Nat.le_trans (by omega) (hlimit l hl)⟩

theorem Keeps.hasRoom (hst : s.Keeps t) (h : s.HasRoom limit f n) : t.HasRoom limit f n := by
  obtain ⟨chain, hchain, hlimit⟩ := h
  exact ⟨chain, hst.ancestry hchain, hlimit⟩

/-- A new frame takes one place. -/
theorem HasRoom.newFrame (h : s.HasRoom limit p (n + 1)) :
    (s.newFrame (some p)).2.HasRoom limit s.frames.size n := by
  obtain ⟨chain, hchain, hlimit⟩ := h
  refine ⟨_, hchain.newFrame, fun l hl => ?_⟩
  have hle := hlimit l hl
  rw [List.length_cons]
  omega

theorem hasRoom_none_iff (hs : s.Parented) : s.HasRoom none f n ↔ f < s.frames.size := by
  refine ⟨HasRoom.lt, fun hf => ?_⟩
  obtain ⟨chain, hchain⟩ := exists_ancestry hs hf
  exact ⟨chain, hchain, nofun⟩

/-- There is room for the calls of a function, and for those of the functions in its body. -/
def Fits (s : Store) (limit : Option Nat) (c : Closure) : Prop :=
  s.HasRoom limit c.frame (Stmt.nestingAll c.body + 1)

/-! ## The functions in a store -/

/-- The function is in a value that a frame binds. -/
def Has (s : Store) (c : Closure) : Prop :=
  ∃ (f : FrameId) (frame : Frame), s.frames[f]? = some frame ∧ c ∈ frame.closures

theorem has_put {new : Frame} (hframe : s.frames[f]? = some frame)
    (hnew : new.closures ⊆ v.closures ++ frame.closures) (hc : (s.put f new).Has c) :
    c ∈ v.closures ∨ s.Has c := by
  obtain ⟨g, other, hother, hc⟩ := hc
  obtain ⟨rfl, rfl⟩ | ⟨-, hother⟩ := cases_of_getElem?_put (lt_size_of_getElem? hframe) hother
  · exact (List.mem_append.1 (hnew hc)).imp id fun hc => ⟨f, frame, hframe, hc⟩
  · exact .inr ⟨g, other, hother, hc⟩

theorem has_assign (h : s.assign f x v = .ok t) (hc : t.Has c) : c ∈ v.closures ∨ s.Has c := by
  obtain ⟨owner, frame, -, hframe, -, rfl⟩ := exists_of_assign h
  exact has_put hframe (frame.closures_set x v) hc

theorem has_declare {constant : Bool} (h : s.declare f x v constant = .ok t) (hc : t.Has c) :
    c ∈ v.closures ∨ s.Has c := by
  obtain ⟨frame, hframe, -, rfl⟩ := exists_of_declare h
  refine has_put hframe ?_ hc
  rw [frame.closures_add]
  exact List.Subset.refl _

theorem has_newFrame {parent : Option FrameId} (hc : (s.newFrame parent).2.Has c) : s.Has c := by
  obtain ⟨f, frame, hframe, hc⟩ := hc
  obtain hframe | ⟨-, rfl⟩ := cases_of_getElem?_newFrame hframe
  · exact ⟨f, frame, hframe, hc⟩
  · cases hc

theorem has_of_lookup (h : s.lookup f x = .ok v) (hc : c ∈ v.closures) : s.Has c := by
  obtain ⟨owner, frame, b, hframe, hb, rfl⟩ := exists_of_lookup h
  exact ⟨owner, frame, hframe, frame.closures_of_find? hb hc⟩

theorem Parented.assign (hs : s.Parented) (h : s.assign f x v = .ok t) : t.Parented := by
  obtain ⟨owner, frame, -, hframe, -, rfl⟩ := exists_of_assign h
  exact hs.put hframe rfl

theorem Parented.declare {constant : Bool} (hs : s.Parented)
    (h : s.declare f x v constant = .ok t) : t.Parented := by
  obtain ⟨frame, hframe, -, rfl⟩ := exists_of_declare h
  exact hs.put hframe rfl

/-! ## Roomy stores -/

/-- There is room for all functions in the store, and no ancestry is beyond the limit. -/
structure Roomy (limit : Option Nat) (s : Store) : Prop where
  parented : s.Parented
  frames : ∀ f < s.frames.size, s.HasRoom limit f 0
  functions : ∀ c, s.Has c → s.Fits limit c

namespace Roomy

/-- A later store with no further frames, and with room for the functions that came in. -/
theorem later (hs : s.Roomy limit) (hst : s.Keeps t) (hparented : t.Parented)
    (hsize : t.frames.size = s.frames.size)
    (hfunctions : ∀ c, t.Has c → t.Fits limit c ∨ s.Has c) : t.Roomy limit where
  parented := hparented
  frames f hf := hst.hasRoom (hs.frames f (hsize ▸ hf))
  functions c hc := (hfunctions c hc).elim id fun hc => hst.hasRoom (hs.functions c hc)

theorem assign (hs : s.Roomy limit) (hv : ∀ c ∈ v.closures, s.Fits limit c)
    (h : s.assign f x v = .ok t) : t.Roomy limit := by
  have hst := keeps_assign h
  refine hs.later hst (hs.parented.assign h) (size_assign h) fun c hc => ?_
  exact (has_assign h hc).imp (fun hc => hst.hasRoom (hv c hc)) id

theorem declare {constant : Bool} (hs : s.Roomy limit) (hv : ∀ c ∈ v.closures, s.Fits limit c)
    (h : s.declare f x v constant = .ok t) : t.Roomy limit := by
  have hst := keeps_declare h
  refine hs.later hst (hs.parented.declare h) (size_declare h) fun c hc => ?_
  exact (has_declare h hc).imp (fun hc => hst.hasRoom (hv c hc)) id

theorem newClosure (hs : s.Roomy limit) : s.newClosure.2.Roomy limit :=
  hs.later (.refl s) hs.parented rfl fun _ => .inr

theorem newFrame_of (hs : s.Roomy limit) {parent : Option FrameId}
    (hparent : ∀ p ∈ parent, p < s.frames.size)
    (hnew : (s.newFrame parent).2.HasRoom limit s.frames.size 0) :
    (s.newFrame parent).2.Roomy limit := by
  have hst := keeps_newFrame s parent
  refine ⟨hs.parented.newFrame_of hparent, fun f hf => ?_, fun c hc => ?_⟩
  · rw [size_newFrame] at hf
    obtain hf | rfl := Nat.lt_or_eq_of_le (Nat.le_of_lt_succ hf)
    · exact hst.hasRoom (hs.frames f hf)
    · exact hnew
  · exact hst.hasRoom (hs.functions c (has_newFrame hc))

/-- A frame is made below one with room for it. -/
theorem newFrame (hs : s.Roomy limit) (hp : s.HasRoom limit p 1) :
    (s.newFrame (some p)).2.Roomy limit :=
  hs.newFrame_of (fun _ h => Option.some.inj h ▸ hp.lt) hp.newFrame

end Roomy

/-! ## Frames that are found -/

variable {h : Halt}

theorem unknown_of_resolve (hs : s.Parented) (hf : f < s.frames.size)
    (hx : s.resolve f x = .error h) : h = .fault (.unknownVariable x) := by
  obtain ⟨chain, hchain⟩ := exists_ancestry hs hf
  exact ((resolve_eq_error_iff hs hchain).1 hx).1

theorem frame_ne_error (hf : f < s.frames.size) : s.frame f ≠ .error h := by
  rw [frame_eq_ok (Array.getElem?_eq_getElem hf)]
  exact nofun

theorem ne_missingFrame_of_resolve (hs : s.Parented) (hf : f < s.frames.size)
    (hx : s.resolve f x = .error h) (g : FrameId) : h ≠ .missingFrame g := by
  rw [unknown_of_resolve hs hf hx]
  exact nofun

theorem ne_missingFrame_of_lookup (hs : s.Parented) (hf : f < s.frames.size)
    (hx : s.lookup f x = .error h) : ∀ g, h ≠ .missingFrame g :=
  ne_missingFrame_of_resolve hs hf (resolve_eq_error_of_lookup hx)

theorem ne_missingFrame_of_assign (hs : s.Parented) (hf : f < s.frames.size)
    (hx : s.assign f x v = .error h) (g : FrameId) : h ≠ .missingFrame g := by
  obtain hx | rfl := cases_of_assign_error hx
  · exact ne_missingFrame_of_resolve hs hf hx g
  · exact nofun

theorem ne_missingFrame_of_declare {constant : Bool} (hf : f < s.frames.size)
    (hx : s.declare f x v constant = .error h) (g : FrameId) : h ≠ .missingFrame g := by
  obtain hx | rfl := cases_of_declare_error hx
  · exact absurd hx (frame_ne_error hf)
  · exact nofun

end Store

end ScopeScript
