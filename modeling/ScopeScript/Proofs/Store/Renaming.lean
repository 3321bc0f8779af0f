import ScopeScript.Proofs.Store.Chain
import ScopeScript.Proofs.Value.Renaming

/-!
# Renaming frames in frames

The operations on a frame do the same to a frame in which the frames and functions that it refers
to are numbered anew.
-/

namespace ScopeScript

/-- The binding with all functions in its value renamed. -/
def Binding.rename (r : Renaming) (b : Binding) : Binding := { b with value := b.value.rename r }

namespace Frame

/-- The functions in the values that a frame binds. -/
def closures (frame : Frame) : List Closure := frame.bindings.flatMap fun b => b.2.closures

/-- The frame with its parent and all functions in its values renamed. -/
def rename (r : Renaming) (frame : Frame) : Frame :=
  { frame with
    parent := frame.parent.map r.frame
    bindings := frame.bindings.map fun b => (b.1, b.2.rename r) }

variable (r : Renaming) (frame : Frame)

@[simp] theorem parent_rename : (frame.rename r).parent = frame.parent.map r.frame := rfl

@[simp] theorem parent_add (b : Binding) : (frame.add b).parent = frame.parent := rfl

@[simp] theorem parent_set (name : String) (v : Value) : (frame.set name v).parent = frame.parent :=
  rfl

theorem empty_rename (parent : Option FrameId) :
    (empty parent).rename r = empty (parent.map r.frame) := rfl

theorem find?_rename (name : String) :
    (frame.rename r).find? name = (frame.find? name).map (Binding.rename r) := by
  have hlookup : (frame.rename r).bindings.lookup name =
      (frame.bindings.lookup name).map (Value.rename r) := by
    unfold rename
    induction frame.bindings with
    | nil => rfl
    | cons b rest ih =>
      rw [List.map_cons, lookup_cons, lookup_cons, ih]
      split <;> rfl
  rw [find?, find?, hlookup, Option.map_map, Option.map_map]
  rfl

theorem add_rename (b : Binding) : (frame.rename r).add (b.rename r) = (frame.add b).rename r := rfl

theorem set_rename (name : String) (v : Value) :
    (frame.rename r).set name (v.rename r) = (frame.set name v).rename r := by
  rw [set, set, rename, rename, mk.injEq, List.map_map, List.map_map]
  refine ⟨rfl, List.map_congr_left fun b _ => ?_, rfl⟩
  by_cases hb : b.1 = name <;> simp [hb]

theorem rename_eq_self (hparent : ∀ p, frame.parent = some p → r.frame p = p)
    (hclosures : ∀ c ∈ frame.closures, c.rename r = c) : frame.rename r = frame := by
  have hbindings : (frame.bindings.map fun b => (b.1, b.2.rename r)) = frame.bindings := by
    rw [← List.map_id frame.bindings, List.map_map]
    refine List.map_congr_left fun b hb => ?_
    have hvalue : b.2.rename r = b.2 :=
      Value.rename_eq_self r b.2 fun c hc => hclosures c (List.mem_flatMap.2 ⟨b, hb, hc⟩)
    simp [hvalue]
  have hframe : frame.parent.map r.frame = frame.parent := by
    cases hp : frame.parent with
    | none => rfl
    | some p => simp [hparent p hp]
  rw [rename, hbindings, hframe]

/-! ## The functions in a frame -/

theorem closures_of_find? {name : String} {b : Binding} (h : frame.find? name = some b) :
    b.value.closures ⊆ frame.closures := by
  intro c hc
  exact List.mem_flatMap.2 ⟨_, mem_of_find? h, hc⟩

theorem closures_add (b : Binding) : (frame.add b).closures = b.value.closures ++ frame.closures :=
  List.flatMap_cons

theorem closures_set (name : String) (v : Value) :
    (frame.set name v).closures ⊆ v.closures ++ frame.closures := by
  intro c hc
  obtain ⟨b', hb', hc⟩ := List.mem_flatMap.1 hc
  obtain ⟨b, hb, rfl⟩ := List.mem_map.1 hb'
  rw [List.mem_append]
  split at hc
  · exact .inl hc
  · exact .inr (List.mem_flatMap.2 ⟨b, hb, hc⟩)

end Frame

end ScopeScript
