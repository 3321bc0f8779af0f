import ScopeScript.Store.Basic

/-!
# Looking names up along parents

A frame is made after its parent, so the way from a frame to its ancestors ends, and it does not
matter how many steps are allowed for it.  Hence looking up and assigning obey equations in which
no such number occurs: they work on the frame, or else on its parent.
-/

namespace ScopeScript.Store

/-- Every frame was made after its parent. -/
def Parented (s : Store) : Prop :=
  ∀ (f : FrameId) (frame : Frame) (parent : FrameId),
    s.frames[f]? = some frame → frame.parent = some parent → parent < f

variable {s : Store} {f : FrameId} {frame : Frame} {name : String}

theorem frame_eq_ok (hf : s.frames[f]? = some frame) : s.frame f = .ok frame := by
  rw [Store.frame, hf]

theorem lt_size_of_getElem? (hf : s.frames[f]? = some frame) : f < s.frames.size :=
  (Array.getElem?_eq_some_iff.1 hf).1

/-! ## Making and replacing frames -/

@[simp] theorem size_put (s : Store) (f : FrameId) (frame : Frame) :
    (s.put f frame).frames.size = s.frames.size := by
  rw [put, Array.size_setIfInBounds]

theorem getElem?_put_self (hf : f < s.frames.size) (frame : Frame) :
    (s.put f frame).frames[f]? = some frame := by
  simp [put, hf]

theorem getElem?_put_of_ne {g : FrameId} (hne : f ≠ g) (frame : Frame) :
    (s.put f frame).frames[g]? = s.frames[g]? := by
  simp [put, hne]

theorem cases_of_getElem?_put {g : FrameId} {new : Frame} (hf : f < s.frames.size)
    (hg : (s.put f new).frames[g]? = some frame) :
    f = g ∧ frame = new ∨ f ≠ g ∧ s.frames[g]? = some frame := by
  by_cases hfg : f = g
  · subst hfg
    rw [getElem?_put_self hf] at hg
    exact .inl ⟨rfl, (Option.some.inj hg).symm⟩
  · exact .inr ⟨hfg, (getElem?_put_of_ne hfg new).symm.trans hg⟩

theorem Parented.put (hs : s.Parented) {old : Frame} (hold : s.frames[f]? = some old)
    (hparent : frame.parent = old.parent) : (s.put f frame).Parented := by
  intro g fr parent hg hp
  obtain ⟨rfl, rfl⟩ | ⟨-, hg⟩ := cases_of_getElem?_put (lt_size_of_getElem? hold) hg
  · exact hs f old parent hold (hparent ▸ hp)
  · exact hs g fr parent hg hp

theorem getElem?_newFrame_size (s : Store) (parent : Option FrameId) :
    (s.newFrame parent).2.frames[s.frames.size]? = some (.empty parent) := by
  simp [newFrame]

theorem getElem?_newFrame_of_lt (hf : f < s.frames.size) (parent : Option FrameId) :
    (s.newFrame parent).2.frames[f]? = s.frames[f]? := by
  simp [newFrame, Array.getElem?_push, Nat.ne_of_lt hf]

@[simp] theorem size_newFrame (s : Store) (parent : Option FrameId) :
    (s.newFrame parent).2.frames.size = s.frames.size + 1 := by
  simp [newFrame]

theorem getElem?_newFrame_of_eq_some (hf : s.frames[f]? = some frame) (parent : Option FrameId) :
    (s.newFrame parent).2.frames[f]? = some frame :=
  (getElem?_newFrame_of_lt (lt_size_of_getElem? hf) parent).trans hf

theorem cases_of_getElem?_newFrame {parent : Option FrameId}
    (hf : (s.newFrame parent).2.frames[f]? = some frame) :
    s.frames[f]? = some frame ∨ f = s.frames.size ∧ frame = .empty parent := by
  have hlt := lt_size_of_getElem? hf
  rw [size_newFrame] at hlt
  obtain hlt | rfl := Nat.lt_or_eq_of_le (Nat.le_of_lt_succ hlt)
  · exact .inl ((getElem?_newFrame_of_lt hlt parent).symm.trans hf)
  · rw [getElem?_newFrame_size] at hf
    exact .inr ⟨rfl, (Option.some.inj hf).symm⟩

theorem Parented.newFrame_of (hs : s.Parented) {parent : Option FrameId}
    (hparent : ∀ p ∈ parent, p < s.frames.size) : (s.newFrame parent).2.Parented := by
  intro g fr p hg hp
  obtain hg | ⟨rfl, rfl⟩ := cases_of_getElem?_newFrame hg
  · exact hs g fr p hg hp
  · exact hparent p hp

theorem Parented.newFrame (hs : s.Parented) {parent : FrameId} (hparent : parent < s.frames.size) :
    (s.newFrame (some parent)).2.Parented :=
  hs.newFrame_of fun _ hp => Option.some.inj hp ▸ hparent

/-! ## Equations -/

/-- The number of steps does not matter once there are more of them than frames made before. -/
theorem resolveWithin_congr (hs : s.Parented) (name : String) {f n m : Nat} (hn : f < n)
    (hm : f < m) : s.resolveWithin name n f = s.resolveWithin name m f := by
  induction f using Nat.strongRecOn generalizing n m with
  | ind f ih =>
    obtain ⟨n, rfl⟩ : ∃ k, n = k + 1 := ⟨n - 1, by omega⟩
    obtain ⟨m, rfl⟩ : ∃ k, m = k + 1 := ⟨m - 1, by omega⟩
    rw [resolveWithin, resolveWithin]
    cases hf : s.frames[f]? with
    | none => simp [Store.frame, hf, bind, Except.bind]
    | some frame =>
      simp only [frame_eq_ok hf, bind, Except.bind]
      cases hparent : frame.parent with
      | none => rfl
      | some parent =>
        have hlt := hs f frame parent hf hparent
        have hrest : s.resolveWithin name n parent = s.resolveWithin name m parent :=
          ih parent hlt (Nat.lt_of_lt_of_le hlt (Nat.le_of_lt_succ hn))
            (Nat.lt_of_lt_of_le hlt (Nat.le_of_lt_succ hm))
        simp only [hrest]

theorem resolve_eq (hs : s.Parented) (hf : s.frames[f]? = some frame) (name : String) :
    s.resolve f name =
      if frame.binds name then .ok f
      else match frame.parent with
        | some parent => s.resolve parent name
        | none => .error (.fault (.unknownVariable name)) := by
  have hsize := lt_size_of_getElem? hf
  rw [resolve, resolveWithin_congr hs name hsize (Nat.lt_succ_of_lt hsize), resolveWithin]
  simp only [frame_eq_ok hf, bind, Except.bind]
  split
  · rfl
  · rfl

/-- A name is looked up in a frame, or else in its parent. -/
theorem lookup_eq (hs : s.Parented) (hf : s.frames[f]? = some frame) (name : String) :
    s.lookup f name =
      match frame.find? name with
      | some b => .ok b.value
      | none =>
        match frame.parent with
        | some parent => s.lookup parent name
        | none => .error (.fault (.unknownVariable name)) := by
  rw [lookup, resolve_eq hs hf]
  cases hb : frame.find? name with
  | some b => simp [Frame.binds, hb, frame_eq_ok hf, bind, Except.bind, pure, Except.pure]
  | none =>
    cases hparent : frame.parent with
    | none => simp [Frame.binds, hb, bind, Except.bind]
    | some parent => simp [Frame.binds, hb, lookup]

/-- A name is assigned to in a frame, or else in its parent. -/
theorem assign_eq (hs : s.Parented) (hf : s.frames[f]? = some frame) (name : String) (v : Value) :
    s.assign f name v =
      match frame.find? name with
      | some b =>
        if b.constant then .error (.fault (.constantAssigned name))
        else .ok (s.put f (frame.set name v))
      | none =>
        match frame.parent with
        | some parent => s.assign parent name v
        | none => .error (.fault (.unknownVariable name)) := by
  rw [assign, resolve_eq hs hf]
  cases hb : frame.find? name with
  | some b =>
    simp only [Frame.binds, ← Frame.constant_eq_of_find? hb, hb, frame_eq_ok hf, bind, Except.bind,
      pure, Except.pure, throw, throwThe, MonadExceptOf.throw, Option.isSome_some, if_true]
  | none =>
    cases hparent : frame.parent with
    | none => simp [Frame.binds, hb, bind, Except.bind]
    | some parent => simp [Frame.binds, hb, assign]

theorem declare_eq (hf : s.frames[f]? = some frame) (name : String) (v : Value)
    (constant : Bool) :
    s.declare f name v constant =
      match frame.find? name with
      | some _ => .error (.fault (.redefinedVariable name))
      | none => .ok (s.put f (frame.add ⟨name, v, constant⟩)) := by
  rw [declare, frame_eq_ok hf]
  cases hb : frame.find? name with
  | some b => simp [Frame.binds, hb, bind, Except.bind, throw, throwThe, MonadExceptOf.throw]
  | none => simp [Frame.binds, hb, bind, Except.bind, pure, Except.pure]

end ScopeScript.Store
