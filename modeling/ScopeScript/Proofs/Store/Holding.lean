import ScopeScript.Proofs.Store.Permanence
import ScopeScript.Run.Action

/-!
# What values a store holds

If all values that the frames of a store bind names to are of a sort, then looking up finds values
of that sort, and writing such values keeps the store so.
-/

namespace ScopeScript.Store

/-- All values that frames bind names to are such that `P` holds of them. -/
def Holds (P : Value → Prop) (s : Store) : Prop :=
  ∀ (f : FrameId) (frame : Frame), s.frames[f]? = some frame → ∀ b ∈ frame.bindings, P b.2

namespace Holds

variable {P : Value → Prop} {s t : Store} {f : FrameId} {frame : Frame} {x : String} {v : Value}

theorem newFrame (hs : s.Holds P) (parent : Option FrameId) : (s.newFrame parent).2.Holds P := by
  intro g other hother b hb
  obtain hother | ⟨-, rfl⟩ := cases_of_getElem?_newFrame hother
  · exact hs g other hother b hb
  · cases hb

theorem put (hs : s.Holds P) {new : Frame} (hframe : s.frames[f]? = some frame)
    (hnew : ∀ b ∈ new.bindings, P b.2) : (s.put f new).Holds P := by
  intro g other hother b hb
  obtain ⟨-, rfl⟩ | ⟨-, hother⟩ := cases_of_getElem?_put (lt_size_of_getElem? hframe) hother
  · exact hnew b hb
  · exact hs g other hother b hb

theorem lookup (hs : s.Holds P) (h : s.lookup f x = .ok v) : P v := by
  obtain ⟨owner, frame, b, hframe, hb, rfl⟩ := exists_of_lookup h
  exact hs owner frame hframe _ (Frame.mem_of_find? hb)

theorem assign (hs : s.Holds P) (hv : P v) (h : s.assign f x v = .ok t) : t.Holds P := by
  obtain ⟨owner, frame, -, hframe, -, rfl⟩ := exists_of_assign h
  refine hs.put hframe fun b hb => ?_
  obtain ⟨b', hb', rfl⟩ := List.mem_map.1 hb
  split
  · exact hv
  · exact hs owner frame hframe b' hb'

theorem declare {constant : Bool} (hs : s.Holds P) (hv : P v)
    (h : s.declare f x v constant = .ok t) : t.Holds P := by
  obtain ⟨frame, hframe, -, rfl⟩ := exists_of_declare h
  refine hs.put hframe fun b hb => ?_
  obtain rfl | hb := List.mem_cons.1 hb
  · exact hv
  · exact hs f frame hframe b hb

end Holds

/-- The global frame binds names to null, truth values and natives. -/
theorem holds_builtin {P : Value → Prop} (hnull : P .null) (hbool : ∀ b, P (.bool b))
    (hnative : ∀ n, P (.native n)) : Builtin.store.Holds P := by
  intro f frame hframe b hb
  obtain ⟨hlt, rfl⟩ := Array.getElem?_eq_some_iff.1 hframe
  obtain rfl : f = 0 := Nat.lt_one_iff.1 hlt
  have hglobals : b ∈ Builtin.globals.bindings := hb
  simp only [Builtin.globals, List.mem_cons, List.not_mem_nil, or_false] at hglobals
  obtain rfl | rfl | rfl | rfl | rfl | rfl := hglobals
  · exact hnative _
  · exact hnative _
  · exact hnative _
  · exact hnull
  · exact hbool false
  · exact hbool true

end ScopeScript.Store
