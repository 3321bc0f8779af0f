import ScopeScript.Proofs.Store.Permanence
import ScopeScript.Proofs.Store.Renaming

/-!
# Functions that are bound to their names

A function is made to be declared: the frame that it captured binds its name to it, for good.  In a
store of such functions the captured frame and the name identify a function, and its identity does
so too (`SelfNamed.equal_iff`).  Declarations and assignments of such functions, new frames and new
functions lead to stores of the same sort.
-/

namespace ScopeScript

namespace Store

variable {s t : Store} {f : FrameId} {frame : Frame} {c d : Closure} {x : String} {v : Value}

/-- The frame that the function captured binds its name to it, as a constant. -/
def SelfBound (s : Store) (c : Closure) : Prop :=
  ∃ frame, s.frames[c.frame]? = some frame ∧ frame.find? c.name = some ⟨c.name, .function c, true⟩

/-- A constant keeps its value. -/
theorem Keeps.selfBound (h : s.Keeps t) (hc : s.SelfBound c) : t.SelfBound c := by
  obtain ⟨frame, hframe, hb⟩ := hc
  obtain ⟨later, hlater, hkeeps⟩ := h _ frame hframe
  obtain ⟨⟨x, v, constant⟩, hb', hconstant, hvalue⟩ := hkeeps.bindings _ _ hb
  obtain rfl : x = c.name := Frame.name_of_find? hb'
  obtain rfl : constant = true := hconstant
  obtain rfl : v = .function c := hvalue rfl
  exact ⟨later, hlater, hb'⟩

/-- All functions in the store are bound to their names, and have identities of their own. -/
structure SelfNamed (s : Store) : Prop where
  parented : s.Parented
  selfBound : ∀ (f : FrameId) (frame : Frame), s.frames[f]? = some frame →
    ∀ c ∈ frame.closures, s.SelfBound c
  identity_lt : ∀ c, s.SelfBound c → c.identity < s.closures
  unique : ∀ c d, s.SelfBound c → s.SelfBound d → c.identity = d.identity → c = d

theorem SelfBound.mem_closures (h : s.SelfBound c) :
    ∃ frame, s.frames[c.frame]? = some frame ∧ c ∈ frame.closures := by
  obtain ⟨frame, hframe, hb⟩ := h
  exact ⟨frame, hframe, frame.closures_of_find? hb List.mem_cons_self⟩

theorem SelfBound.eq_of_frame_name (hc : s.SelfBound c) (hd : s.SelfBound d)
    (hframe : c.frame = d.frame) (hname : c.name = d.name) : c = d := by
  obtain ⟨frame, hf, hb⟩ := hc
  obtain ⟨frame', hf', hb'⟩ := hd
  rw [← hframe, hf] at hf'
  obtain rfl := Option.some.inj hf'
  rw [← hname, hb] at hb'
  exact Value.function.inj (Binding.mk.inj (Option.some.inj hb')).2.1

/-- Two functions are equal just if they captured the same frame and have the same name. -/
theorem SelfNamed.equal_iff (hs : s.SelfNamed) (hc : s.SelfBound c) (hd : s.SelfBound d) :
    (Value.function c).equal (.function d) = true ↔ c.frame = d.frame ∧ c.name = d.name := by
  rw [Value.equal, beq_iff_eq]
  refine ⟨fun h => ?_, fun ⟨hframe, hname⟩ => ?_⟩
  · obtain rfl := hs.unique c d hc hd h
    exact ⟨rfl, rfl⟩
  · rw [hc.eq_of_frame_name hd hframe hname]

/-- From the frame on to `owner`, no frame before `owner` binds the name. -/
inductive Unshadowed (s : Store) (x : String) (owner : FrameId) : FrameId → Prop
  | here : s.Unshadowed x owner owner
  | outward {f p : FrameId} {frame : Frame} (hframe : s.frames[f]? = some frame)
      (hparent : frame.parent = some p) (hx : frame.binds x = false) (h : s.Unshadowed x owner p) :
      s.Unshadowed x owner f

/-- Where its name is not shadowed, a function is what the name denotes. -/
theorem SelfBound.lookup (hc : s.SelfBound c) (hs : s.Parented)
    (h : s.Unshadowed c.name c.frame f) : s.lookup f c.name = .ok (.function c) := by
  induction h with
  | here =>
    obtain ⟨frame, hframe, hb⟩ := hc
    rw [lookup_eq hs hframe, hb]
  | @outward f p frame hframe hparent hx _ ih =>
    have hnone : frame.find? c.name = none := by simpa [Frame.binds] using hx
    rw [lookup_eq hs hframe, hnone, hparent]
    exact ih

/-! ## Later stores -/

namespace SelfNamed

/-- A later store in which frames have only functions that were bound to their names before. -/
theorem later (hs : s.SelfNamed) (hkeeps : s.Keeps t) (hparented : t.Parented)
    (hclosures : s.closures ≤ t.closures)
    (hheld : ∀ (f : FrameId) (frame : Frame), t.frames[f]? = some frame →
      ∀ c ∈ frame.closures, s.SelfBound c) : t.SelfNamed := by
  have hback : ∀ c, t.SelfBound c → s.SelfBound c := fun c hc =>
    let ⟨frame, hframe, hmem⟩ := hc.mem_closures
    hheld _ frame hframe c hmem
  exact ⟨hparented, fun f frame hframe c hc => hkeeps.selfBound (hheld f frame hframe c hc),
    fun c hc => Nat.lt_of_lt_of_le (hs.identity_lt c (hback c hc)) hclosures,
    fun c d hc hd => hs.unique c d (hback c hc) (hback d hd)⟩

theorem newClosure (hs : s.SelfNamed) : s.newClosure.2.SelfNamed :=
  hs.later (.refl s) hs.parented (Nat.le_succ _) hs.selfBound

theorem newFrame (hs : s.SelfNamed) {parent : FrameId} (hparent : parent < s.frames.size) :
    (s.newFrame (some parent)).2.SelfNamed := by
  refine hs.later (keeps_newFrame s _) (hs.parented.newFrame hparent) (Nat.le_refl _)
    fun f frame hframe c hc => ?_
  obtain hframe | ⟨-, rfl⟩ := cases_of_getElem?_newFrame hframe
  · exact hs.selfBound f frame hframe c hc
  · cases hc

theorem put (hs : s.SelfNamed) {new : Frame} (hframe : s.frames[f]? = some frame)
    (hkeeps : frame.Keeps new) (hv : ∀ c ∈ v.closures, s.SelfBound c)
    (hnew : new.closures ⊆ v.closures ++ frame.closures) : (s.put f new).SelfNamed := by
  refine hs.later (keeps_put hframe hkeeps) (hs.parented.put hframe hkeeps.parent) (Nat.le_refl _)
    fun g other hother c hc => ?_
  obtain ⟨rfl, rfl⟩ | ⟨-, hother⟩ := cases_of_getElem?_put (lt_size_of_getElem? hframe) hother
  · obtain hc | hc := List.mem_append.1 (hnew hc)
    · exact hv c hc
    · exact hs.selfBound f frame hframe c hc
  · exact hs.selfBound g other hother c hc

theorem assign (hs : s.SelfNamed) (hv : ∀ c ∈ v.closures, s.SelfBound c)
    (h : s.assign f x v = .ok t) : t.SelfNamed := by
  obtain ⟨owner, frame, -, hframe, hx, rfl⟩ := exists_of_assign h
  exact hs.put hframe (Frame.keeps_set hx v) hv (frame.closures_set x v)

theorem declare {constant : Bool} (hs : s.SelfNamed) (hv : ∀ c ∈ v.closures, s.SelfBound c)
    (h : s.declare f x v constant = .ok t) : t.SelfNamed := by
  obtain ⟨frame, hframe, hx, rfl⟩ := exists_of_declare h
  refine hs.put hframe (Frame.keeps_add hx) hv ?_
  rw [frame.closures_add]
  exact List.Subset.refl _

/-- A new function is declared in the frame that it captured. -/
theorem define (hs : s.SelfNamed) {params : List String} {body : List Stmt}
    (h : s.newClosure.2.declare f x (.function ⟨s.closures, x, params, body, f⟩) true = .ok t) :
    t.SelfNamed ∧ t.SelfBound ⟨s.closures, x, params, body, f⟩ := by
  obtain ⟨frame, hframe, hx, rfl⟩ := exists_of_declare h
  let c : Closure := ⟨s.closures, x, params, body, f⟩
  let new := frame.add ⟨x, .function c, true⟩
  let t := s.newClosure.2.put f new
  have hkeeps : s.Keeps t := keeps_put (s := s.newClosure.2) hframe (Frame.keeps_add hx)
  have hself : t.SelfBound c := by
    refine ⟨new, getElem?_put_self (lt_size_of_getElem? hframe) new, ?_⟩
    rw [Frame.find?_add, if_pos rfl]
    rfl
  have hheld (g : FrameId) (other : Frame) (hother : t.frames[g]? = some other) (d : Closure)
      (hd : d ∈ other.closures) : d = c ∨ s.SelfBound d := by
    obtain ⟨rfl, rfl⟩ | ⟨-, hother⟩ := cases_of_getElem?_put (lt_size_of_getElem? hframe) hother
    · rw [frame.closures_add] at hd
      exact (List.mem_append.1 hd).imp List.mem_singleton.1 (hs.selfBound f frame hframe d)
    · exact .inr (hs.selfBound g other hother d hd)
  have hback (d : Closure) (hd : t.SelfBound d) : d = c ∨ s.SelfBound d :=
    let ⟨other, hother, hmem⟩ := hd.mem_closures
    hheld _ other hother d hmem
  -- The new function has the next identity, which no function of the store had.
  have hfresh (d : Closure) (hd : s.SelfBound d) : d.identity ≠ c.identity :=
    Nat.ne_of_lt (hs.identity_lt d hd)
  refine ⟨⟨?_, fun g other hother d hd => ?_, fun d hd => ?_, fun d e hd he heq => ?_⟩, hself⟩
  · exact hs.newClosure.parented.put hframe rfl
  · obtain rfl | hd := hheld g other hother d hd
    · exact hself
    · exact hkeeps.selfBound hd
  · obtain rfl | hd := hback d hd
    · exact Nat.lt_succ_self _
    · exact Nat.lt_succ_of_lt (hs.identity_lt d hd)
  · obtain rfl | hd := hback d hd <;> obtain rfl | he := hback e he
    · rfl
    · exact absurd heq.symm (hfresh e he)
    · exact absurd heq (hfresh d hd)
    · exact hs.unique d e hd he heq

end SelfNamed

end Store

end ScopeScript
