import ScopeScript.Proofs.Store.Renaming

/-!
# Reachable frames

The frames that parents and the functions in values lead to.  Two stores that have the same frames
wherever some roots lead to agree on which frames these are.
-/

namespace ScopeScript.Store

/-- The frames that parents and functions in values lead to from the roots. -/
inductive Reachable (s : Store) (roots : FrameId → Prop) : FrameId → Prop
  | root {f : FrameId} (hf : roots f) : s.Reachable roots f
  | parent {f p : FrameId} {frame : Frame} (hf : s.Reachable roots f)
    (hframe : s.frames[f]? = some frame) (hp : frame.parent = some p) : s.Reachable roots p
  | captured {f : FrameId} {frame : Frame} {c : Closure} (hf : s.Reachable roots f)
    (hframe : s.frames[f]? = some frame) (hc : c ∈ frame.closures) : s.Reachable roots c.frame

/-- Frames refer to frames and functions that were made, and to parents that were made before. -/
structure WellFormed (s : Store) : Prop where
  parented : s.Parented
  made : ∀ (f : FrameId) (frame : Frame), s.frames[f]? = some frame →
    ∀ c ∈ frame.closures, c.frame < s.frames.size ∧ c.identity < s.closures

/-- Two well-formed stores have the same frames wherever the roots lead to. -/
structure AgreeFrom (roots : FrameId → Prop) (s t : Store) : Prop where
  left : s.WellFormed
  right : t.WellFormed
  roots_made : ∀ f, roots f → f < s.frames.size
  same : ∀ f, s.Reachable roots f → t.frames[f]? = s.frames[f]?

variable {roots : FrameId → Prop} {s t : Store}

theorem Reachable.lt (hs : s.WellFormed) (hroots : ∀ f, roots f → f < s.frames.size) {f : FrameId}
    (hf : s.Reachable roots f) : f < s.frames.size := by
  induction hf with
  | root hf => exact hroots _ hf
  | parent _ hframe hp ih => exact Nat.lt_trans (hs.parented _ _ _ hframe hp) ih
  | captured _ hframe hc _ => exact (hs.made _ _ hframe _ hc).1

theorem AgreeFrom.exists_frame (h : AgreeFrom roots s t) {f : FrameId}
    (hf : s.Reachable roots f) :
    ∃ frame, s.frames[f]? = some frame ∧ t.frames[f]? = some frame := by
  have hlt := hf.lt h.left h.roots_made
  have hframe := Array.getElem?_eq_getElem hlt
  exact ⟨s.frames[f], hframe, (h.same f hf).trans hframe⟩

theorem AgreeFrom.reachable_iff (h : AgreeFrom roots s t) (f : FrameId) :
    t.Reachable roots f ↔ s.Reachable roots f := by
  constructor
  · intro hf
    induction hf with
    | root hf => exact .root hf
    | parent _ hframe hp ih => exact .parent ih (h.same _ ih ▸ hframe) hp
    | captured _ hframe hc ih => exact .captured ih (h.same _ ih ▸ hframe) hc
  · intro hf
    induction hf with
    | root hf => exact .root hf
    | parent hf hframe hp ih => exact .parent ih ((h.same _ hf).trans hframe) hp
    | captured hf hframe hc ih => exact .captured ih ((h.same _ hf).trans hframe) hc

end ScopeScript.Store
