import ScopeScript.Proofs.Store.Chain

/-!
# What lasts in a store

A later store has all frames of an earlier one, with the same parents.  A frame keeps the names that
it binds: a constant stays constant and keeps its value, and a variable stays a variable.  Making
frames, declaring names and assigning to them lead to later stores in this sense.  They also see to
it that the two tables of a frame are in step: only names that are bound are marked as constants.
-/

namespace ScopeScript

/-! ## Frames -/

/-- What a frame may become: it binds more names, and variables have other values.  Marks stay, and
new ones are on names that are bound. -/
structure Frame.Keeps (f g : Frame) : Prop where
  parent : g.parent = f.parent
  bindings : ∀ x b, f.find? x = some b →
    ∃ c, g.find? x = some c ∧ c.constant = b.constant ∧ (b.constant = true → c.value = b.value)
  isConstant : ∀ x, f.isConstant x = true → g.isConstant x = true
  marked : ∀ x, g.isConstant x = true → g.binds x = true ∨ f.isConstant x = true

/-- The two tables are in step: every name that is marked as a constant is bound. -/
def Frame.MarksBound (f : Frame) : Prop := ∀ x, f.isConstant x = true → f.binds x = true

namespace Frame

variable {f g h : Frame} {b : Binding} {x y : String}

theorem Keeps.binds (h : f.Keeps g) (hx : f.binds x = true) : g.binds x = true := by
  obtain ⟨b, hb⟩ := Option.isSome_iff_exists.1 hx
  obtain ⟨c, hc, -⟩ := h.bindings x b hb
  rw [Frame.binds, hc]
  rfl

theorem Keeps.refl (f : Frame) : f.Keeps f where
  parent := rfl
  bindings _ b hb := ⟨b, hb, rfl, fun _ => rfl⟩
  isConstant _ := id
  marked _ := .inr

theorem Keeps.trans (hfg : f.Keeps g) (hgh : g.Keeps h) : f.Keeps h := by
  refine ⟨hgh.parent.trans hfg.parent, fun x b hb => ?_,
    fun x hx => hgh.isConstant x (hfg.isConstant x hx), fun x hx => ?_⟩
  · obtain ⟨c, hc, hconstant, hvalue⟩ := hfg.bindings x b hb
    obtain ⟨d, hd, hconstant', hvalue'⟩ := hgh.bindings x c hc
    refine ⟨d, hd, hconstant'.trans hconstant, fun h => ?_⟩
    rw [hvalue' (hconstant.trans h), hvalue h]
  · obtain hbinds | hx := hgh.marked x hx
    · exact .inl hbinds
    · exact (hfg.marked x hx).imp_left hgh.binds

theorem Keeps.marksBound (h : f.Keeps g) (hf : f.MarksBound) : g.MarksBound := by
  intro x hx
  obtain hbinds | hx := h.marked x hx
  · exact hbinds
  · exact h.binds (hf x hx)

theorem marksBound_empty (parent : Option FrameId) : (empty parent).MarksBound :=
  fun _ hx => absurd hx Bool.false_ne_true

/-! ### What operations do -/

theorem binds_add (f : Frame) (b : Binding) (x : String) :
    (f.add b).binds x = true ↔ b.name = x ∨ f.binds x = true := by
  unfold binds
  rw [find?_add]
  by_cases h : b.name = x
  · simp [h]
  · simp [h]

theorem binds_set (f : Frame) (y : String) (v : Value) (x : String) :
    (f.set y v).binds x = f.binds x := by
  rw [binds, find?_set, Option.isSome_map, binds]

theorem keeps_add (hb : f.find? b.name = none) : f.Keeps (f.add b) where
  parent := rfl
  bindings x c hc := by
    have hne : b.name ≠ x := by
      rintro rfl
      rw [hb] at hc
      cases hc
    exact ⟨c, by rw [find?_add, if_neg hne, hc], rfl, fun _ => rfl⟩
  isConstant x hx := by
    rw [isConstant_add]
    split
    · rw [hx, Bool.or_true]
    · exact hx
  marked x hx := by
    rw [isConstant_add] at hx
    split at hx
    · next hname => exact .inl ((binds_add f b x).2 (.inl hname))
    · exact .inr hx

theorem keeps_set (hx : f.isConstant x = false) (v : Value) : f.Keeps (f.set x v) where
  parent := rfl
  bindings y b hb := by
    refine ⟨if y = x then { b with value := v } else b, ?_, ?_, fun h => ?_⟩
    · rw [find?_set, hb, Option.map_some]
    · split <;> rfl
    · have hne : y ≠ x := by
        rintro rfl
        rw [← constant_eq_of_find? hb, h] at hx
        cases hx
      rw [if_neg hne]
  isConstant _ := id
  marked _ := .inr

end Frame

namespace Store

variable {s t u : Store} {f : FrameId} {frame : Frame} {x : String} {v : Value}

/-! ## What operations do -/

theorem frame_eq_ok_iff : s.frame f = .ok frame ↔ s.frames[f]? = some frame := by
  unfold Store.frame
  cases s.frames[f]? with
  | none => simp
  | some g => simp

theorem exists_of_declare {constant : Bool} (h : s.declare f x v constant = .ok t) :
    ∃ frame, s.frames[f]? = some frame ∧ frame.find? x = none ∧
      t = s.put f (frame.add ⟨x, v, constant⟩) := by
  cases hf : s.frames[f]? with
  | none =>
    rw [declare, Store.frame, hf] at h
    cases h
  | some frame =>
    rw [declare_eq hf] at h
    cases hx : frame.find? x with
    | some b =>
      rw [hx] at h
      cases h
    | none =>
      rw [hx] at h
      exact ⟨frame, rfl, hx, (Except.ok.inj h).symm⟩

theorem exists_of_lookup (h : s.lookup f x = .ok v) :
    ∃ (owner : FrameId) (frame : Frame) (b : Binding),
      s.frames[owner]? = some frame ∧ frame.find? x = some b ∧ b.value = v := by
  unfold lookup at h
  cases howner : s.resolve f x with
  | error e =>
    rw [howner] at h
    cases h
  | ok owner =>
    rw [howner] at h
    cases hframe : s.frame owner with
    | error e =>
      simp only [bind, Except.bind, hframe] at h
      cases h
    | ok frame =>
      simp only [bind, Except.bind, hframe] at h
      cases hb : frame.find? x with
      | some b =>
        rw [hb] at h
        exact ⟨owner, frame, b, frame_eq_ok_iff.1 hframe, hb, Except.ok.inj h⟩
      | none =>
        rw [hb] at h
        cases h

theorem exists_of_assign (h : s.assign f x v = .ok t) :
    ∃ owner frame, s.resolve f x = .ok owner ∧ s.frames[owner]? = some frame ∧
      frame.isConstant x = false ∧ t = s.put owner (frame.set x v) := by
  unfold assign at h
  cases howner : s.resolve f x with
  | error e =>
    rw [howner] at h
    cases h
  | ok owner =>
    rw [howner] at h
    cases hframe : s.frame owner with
    | error e =>
      simp only [bind, Except.bind, hframe] at h
      cases h
    | ok frame =>
      simp only [bind, Except.bind, hframe] at h
      split at h
      · cases h
      · next hconstant =>
        refine ⟨owner, frame, rfl, frame_eq_ok_iff.1 hframe, ?_, (Except.ok.inj h).symm⟩
        simpa using hconstant

/-! ## How operations fail -/

theorem halt_of_frame {h : Halt} (hf : s.frame f = .error h) : h = .missingFrame f := by
  unfold Store.frame at hf
  cases hframe : s.frames[f]? with
  | some frame => simp [hframe] at hf
  | none =>
    rw [hframe] at hf
    exact (Except.error.inj hf).symm

/-- The frame in which a name is found binds it, and a name is missed only if no frame does. -/
theorem cases_of_resolveWithin (s : Store) (x : String) (n : Nat) (f : FrameId) :
    (∃ owner frame, s.resolveWithin x n f = .ok owner ∧ s.frames[owner]? = some frame ∧
      frame.binds x = true) ∨
    (∃ g, s.resolveWithin x n f = .error (.missingFrame g)) ∨
    s.resolveWithin x n f = .error (.fault (.unknownVariable x)) := by
  induction n generalizing f with
  | zero => exact .inr (.inl ⟨f, rfl⟩)
  | succ n ih =>
    rw [resolveWithin]
    cases hframe : s.frame f with
    | error h =>
      rw [halt_of_frame hframe]
      exact .inr (.inl ⟨f, rfl⟩)
    | ok frame =>
      simp only [bind, Except.bind]
      by_cases hx : frame.binds x = true
      · simp only [if_pos hx]
        exact .inl ⟨f, frame, rfl, frame_eq_ok_iff.1 hframe, hx⟩
      · simp only [if_neg hx]
        cases frame.parent with
        | none => exact .inr (.inr rfl)
        | some parent => exact ih parent

theorem exists_of_resolve {owner : FrameId} (h : s.resolve f x = .ok owner) :
    ∃ frame, s.frames[owner]? = some frame ∧ frame.binds x = true := by
  obtain ⟨owner', frame, howner, hframe, hx⟩ | ⟨g, hg⟩ | hnone :=
    s.cases_of_resolveWithin x s.frames.size f
  · obtain rfl : owner' = owner := Except.ok.inj (howner.symm.trans h)
    exact ⟨frame, hframe, hx⟩
  · cases hg.symm.trans h
  · cases hnone.symm.trans h

/-- Looking up, assigning and declaring fail for want of a frame, or with a fault of their own. -/
inductive Refusal (x : String) : Halt → Prop
  | missingFrame (g : FrameId) : Refusal x (.missingFrame g)
  | unknown : Refusal x (.fault (.unknownVariable x))
  | constant : Refusal x (.fault (.constantAssigned x))
  | redefined : Refusal x (.fault (.redefinedVariable x))

variable {h : Halt}

theorem refusal_of_frame (hf : s.frame f = .error h) : Refusal x h :=
  halt_of_frame hf ▸ .missingFrame f

theorem refusal_of_resolve (hx : s.resolve f x = .error h) : Refusal x h := by
  obtain ⟨owner, frame, howner, -⟩ | ⟨g, hg⟩ | hnone :=
    s.cases_of_resolveWithin x s.frames.size f
  · cases howner.symm.trans hx
  · exact Except.error.inj (hg.symm.trans hx) ▸ .missingFrame g
  · exact Except.error.inj (hnone.symm.trans hx) ▸ .unknown

theorem resolve_eq_error_of_lookup (hx : s.lookup f x = .error h) : s.resolve f x = .error h := by
  unfold lookup at hx
  cases howner : s.resolve f x with
  | error e =>
    rw [howner] at hx
    exact congrArg Except.error (Except.error.inj hx)
  | ok owner =>
    obtain ⟨frame, hframe, hbinds⟩ := exists_of_resolve howner
    obtain ⟨b, hb⟩ := Option.isSome_iff_exists.1 hbinds
    rw [howner] at hx
    simp only [bind, Except.bind, frame_eq_ok hframe, hb] at hx
    cases hx

theorem cases_of_assign_error (hx : s.assign f x v = .error h) :
    s.resolve f x = .error h ∨ h = .fault (.constantAssigned x) := by
  unfold assign at hx
  cases howner : s.resolve f x with
  | error e =>
    rw [howner] at hx
    exact .inl (congrArg Except.error (Except.error.inj hx))
  | ok owner =>
    obtain ⟨frame, hframe, -⟩ := exists_of_resolve howner
    rw [howner] at hx
    simp only [bind, Except.bind, frame_eq_ok hframe] at hx
    split at hx
    · exact .inr (Except.error.inj hx).symm
    · cases hx

theorem cases_of_declare_error {constant : Bool} (hx : s.declare f x v constant = .error h) :
    s.frame f = .error h ∨ h = .fault (.redefinedVariable x) := by
  unfold declare at hx
  cases hframe : s.frame f with
  | error e =>
    rw [hframe] at hx
    exact .inl (congrArg Except.error (Except.error.inj hx))
  | ok frame =>
    simp only [hframe, bind, Except.bind] at hx
    split at hx
    · exact .inr (Except.error.inj hx).symm
    · cases hx

theorem refusal_of_lookup (hx : s.lookup f x = .error h) : Refusal x h :=
  refusal_of_resolve (resolve_eq_error_of_lookup hx)

theorem refusal_of_assign (hx : s.assign f x v = .error h) : Refusal x h := by
  obtain hx | rfl := cases_of_assign_error hx
  · exact refusal_of_resolve hx
  · exact .constant

theorem refusal_of_declare {constant : Bool} (hx : s.declare f x v constant = .error h) :
    Refusal x h := by
  obtain hx | rfl := cases_of_declare_error hx
  · exact refusal_of_frame hx
  · exact .redefined

/-! ## Later stores -/

/-- `t` is as `s` may become: frames are kept with their parents and names. -/
def Keeps (s t : Store) : Prop :=
  ∀ (f : FrameId) (frame : Frame), s.frames[f]? = some frame →
    ∃ later, t.frames[f]? = some later ∧ frame.Keeps later

theorem Keeps.refl (s : Store) : s.Keeps s :=
  fun _ frame hframe => ⟨frame, hframe, .refl frame⟩

theorem Keeps.trans (hst : s.Keeps t) (htu : t.Keeps u) : s.Keeps u := by
  intro f frame hframe
  obtain ⟨later, hlater, hkeeps⟩ := hst f frame hframe
  obtain ⟨latest, hlatest, hkeeps'⟩ := htu f later hlater
  exact ⟨latest, hlatest, hkeeps.trans hkeeps'⟩

theorem keeps_put {new : Frame} (hframe : s.frames[f]? = some frame) (h : frame.Keeps new) :
    s.Keeps (s.put f new) := by
  intro g old hold
  by_cases hfg : f = g
  · subst hfg
    obtain rfl := Option.some.inj (hframe.symm.trans hold)
    exact ⟨new, getElem?_put_self (lt_size_of_getElem? hframe) new, h⟩
  · exact ⟨old, (getElem?_put_of_ne hfg new).trans hold, .refl old⟩

theorem keeps_declare {constant : Bool} (h : s.declare f x v constant = .ok t) : s.Keeps t := by
  obtain ⟨frame, hframe, hx, rfl⟩ := exists_of_declare h
  exact keeps_put hframe (Frame.keeps_add hx)

theorem keeps_assign (h : s.assign f x v = .ok t) : s.Keeps t := by
  obtain ⟨owner, frame, -, hframe, hconstant, rfl⟩ := exists_of_assign h
  exact keeps_put hframe (Frame.keeps_set hconstant v)

theorem size_assign (h : s.assign f x v = .ok t) : t.frames.size = s.frames.size := by
  obtain ⟨owner, frame, -, -, -, rfl⟩ := exists_of_assign h
  exact size_put s owner _

theorem size_declare {constant : Bool} (h : s.declare f x v constant = .ok t) :
    t.frames.size = s.frames.size := by
  obtain ⟨frame, -, -, rfl⟩ := exists_of_declare h
  exact size_put s f _

theorem keeps_newFrame (s : Store) (parent : Option FrameId) : s.Keeps (s.newFrame parent).2 :=
  fun _ frame hframe => ⟨frame, getElem?_newFrame_of_eq_some hframe parent, .refl frame⟩

theorem Keeps.size_le (h : s.Keeps t) : s.frames.size ≤ t.frames.size := by
  refine Nat.le_of_not_lt fun hlast => ?_
  obtain ⟨later, hlater, -⟩ := h _ _ (Array.getElem?_eq_getElem hlast)
  exact Nat.lt_irrefl _ (lt_size_of_getElem? hlater)

/-! ## Marks of constants -/

/-- In every frame the names that are marked as constants are bound. -/
def MarksBound (s : Store) : Prop :=
  ∀ (f : FrameId) (frame : Frame), s.frames[f]? = some frame → frame.MarksBound

theorem marksBound_empty : Store.empty.MarksBound :=
  fun _ _ hframe => absurd hframe (by simp [Store.empty])

theorem MarksBound.put {new : Frame} (hs : s.MarksBound) (hframe : s.frames[f]? = some frame)
    (hnew : frame.Keeps new) : (s.put f new).MarksBound := by
  intro g later hlater
  by_cases hfg : f = g
  · subst hfg
    rw [getElem?_put_self (lt_size_of_getElem? hframe)] at hlater
    obtain rfl := Option.some.inj hlater
    exact hnew.marksBound (hs f frame hframe)
  · rw [getElem?_put_of_ne hfg] at hlater
    exact hs g later hlater

theorem MarksBound.declare {constant : Bool} (hs : s.MarksBound)
    (h : s.declare f x v constant = .ok t) : t.MarksBound := by
  obtain ⟨frame, hframe, hx, rfl⟩ := exists_of_declare h
  exact hs.put hframe (Frame.keeps_add hx)

theorem MarksBound.assign (hs : s.MarksBound) (h : s.assign f x v = .ok t) : t.MarksBound := by
  obtain ⟨owner, frame, -, hframe, hconstant, rfl⟩ := exists_of_assign h
  exact hs.put hframe (Frame.keeps_set hconstant v)

theorem MarksBound.newFrame (hs : s.MarksBound) (parent : Option FrameId) :
    (s.newFrame parent).2.MarksBound := by
  intro f frame hframe
  obtain hframe | ⟨-, rfl⟩ := cases_of_getElem?_newFrame hframe
  · exact hs f frame hframe
  · exact Frame.marksBound_empty parent

/-! ## Bound names -/

/-- The frame was made and binds the name. -/
def Binds (s : Store) (f : FrameId) (x : String) : Prop :=
  ∃ frame, s.frames[f]? = some frame ∧ frame.binds x = true

theorem Keeps.binds (h : s.Keeps t) (hx : s.Binds f x) : t.Binds f x := by
  obtain ⟨frame, hframe, hx⟩ := hx
  obtain ⟨later, hlater, hkeeps⟩ := h f frame hframe
  exact ⟨later, hlater, hkeeps.binds hx⟩

theorem binds_put_iff {new : Frame} {g : FrameId} (hframe : s.frames[f]? = some frame) :
    (s.put f new).Binds g x ↔ if g = f then new.binds x = true else s.Binds g x := by
  unfold Binds
  by_cases hgf : g = f
  · subst hgf
    rw [if_pos rfl, getElem?_put_self (lt_size_of_getElem? hframe)]
    simp
  · rw [if_neg hgf, getElem?_put_of_ne (Ne.symm hgf)]

theorem binds_iff_of_getElem? (hframe : s.frames[f]? = some frame) :
    s.Binds f x ↔ frame.binds x = true := by
  unfold Binds
  simp [hframe]

/-- A declaration binds its name, which was not bound, and no other. -/
theorem binds_iff_of_declare {constant : Bool} (h : s.declare f x v constant = .ok t)
    (g : FrameId) (y : String) : t.Binds g y ↔ s.Binds g y ∨ g = f ∧ y = x := by
  obtain ⟨frame, hframe, -, rfl⟩ := exists_of_declare h
  rw [binds_put_iff hframe]
  by_cases hgf : g = f
  · subst hgf
    rw [if_pos rfl, Frame.binds_add, binds_iff_of_getElem? hframe]
    constructor
    · rintro (rfl | hy)
      · exact .inr ⟨rfl, rfl⟩
      · exact .inl hy
    · rintro (hy | ⟨-, rfl⟩)
      · exact .inr hy
      · exact .inl rfl
  · simp [hgf]

theorem not_binds_of_declare {constant : Bool} (h : s.declare f x v constant = .ok t) :
    ¬s.Binds f x := by
  obtain ⟨frame, hframe, hx, -⟩ := exists_of_declare h
  rw [binds_iff_of_getElem? hframe, Frame.binds, hx]
  exact Bool.false_ne_true

/-- An assignment binds no name that was not bound. -/
theorem binds_iff_of_assign (h : s.assign f x v = .ok t) (g : FrameId) (y : String) :
    t.Binds g y ↔ s.Binds g y := by
  obtain ⟨owner, frame, -, hframe, -, rfl⟩ := exists_of_assign h
  rw [binds_put_iff hframe]
  by_cases hgo : g = owner
  · subst hgo
    rw [if_pos rfl, Frame.binds_set, binds_iff_of_getElem? hframe]
  · rw [if_neg hgo]

/-- A new frame binds no name. -/
theorem binds_newFrame_iff (parent : Option FrameId) :
    (s.newFrame parent).2.Binds f x ↔ s.Binds f x := by
  constructor
  · rintro ⟨frame, hframe, hx⟩
    obtain hframe | ⟨-, rfl⟩ := cases_of_getElem?_newFrame hframe
    · exact ⟨frame, hframe, hx⟩
    · cases hx
  · exact (keeps_newFrame s parent).binds

/-! ## Later stores with the same names -/

/-- The frame was made and marks the name as a constant. -/
def BindsConstant (s : Store) (f : FrameId) (x : String) : Prop :=
  ∃ frame, s.frames[f]? = some frame ∧ frame.isConstant x = true

/-- `t` is a later store in which the frames of `s` bind the same names and the same constants.
What may differ are the values of variables. -/
structure SameNames (s t : Store) : Prop where
  keeps : s.Keeps t
  binds_iff : ∀ f < s.frames.size, ∀ x, t.Binds f x ↔ s.Binds f x
  bindsConstant_iff : ∀ f < s.frames.size, ∀ x, t.BindsConstant f x ↔ s.BindsConstant f x

/-- A name that is bound already is a constant later just if it is one now. -/
theorem Keeps.bindsConstant_iff (h : s.Keeps t) (hx : s.Binds f x) :
    t.BindsConstant f x ↔ s.BindsConstant f x := by
  obtain ⟨frame, hframe, hx⟩ := hx
  obtain ⟨b, hb⟩ := Option.isSome_iff_exists.1 hx
  obtain ⟨later, hlater, hkeeps⟩ := h f frame hframe
  obtain ⟨c, hc, hconstant, -⟩ := hkeeps.bindings x b hb
  have hmark : later.isConstant x = frame.isConstant x := by
    rw [← Frame.constant_eq_of_find? hb, ← Frame.constant_eq_of_find? hc, hconstant]
  simp [BindsConstant, hframe, hlater, hmark]

/-- A later store that binds no further names in the frames of an earlier one has the same names. -/
theorem Keeps.sameNames (h : s.Keeps t)
    (hbinds : ∀ f < s.frames.size, ∀ x, t.Binds f x → s.Binds f x) : s.SameNames t := by
  refine ⟨h, fun f hf x => ⟨hbinds f hf x, h.binds⟩, fun f hf x => ⟨fun hx => ?_, fun hx => ?_⟩⟩
  · obtain ⟨later, hlater, hmark⟩ := hx
    obtain ⟨later', hlater', hkeeps⟩ := h f s.frames[f] (Array.getElem?_eq_getElem hf)
    obtain rfl := Option.some.inj (hlater.symm.trans hlater')
    obtain hbound | hmark' := hkeeps.marked x hmark
    · exact (h.bindsConstant_iff (hbinds f hf x ⟨later, hlater, hbound⟩)).1 ⟨later, hlater, hmark⟩
    · exact ⟨s.frames[f], Array.getElem?_eq_getElem hf, hmark'⟩
  · obtain ⟨frame, hframe, hmark⟩ := hx
    obtain ⟨later, hlater, hkeeps⟩ := h f frame hframe
    exact ⟨later, hlater, hkeeps.isConstant x hmark⟩

/-! ## Later stores with further names in one frame -/

/-- `t` is a later store in which `f` binds the given names as well, none of which it bound in `s`.
The other frames of `s` bind the same names as before. -/
structure Gains (s : Store) (f : FrameId) (names : List String) (t : Store) : Prop where
  keeps : s.Keeps t
  not_binds : ∀ x ∈ names, ¬s.Binds f x
  binds_iff : ∀ g < s.frames.size, ∀ x, t.Binds g x ↔ s.Binds g x ∨ g = f ∧ x ∈ names

theorem Gains.trans_sameNames {names : List String} (hst : s.Gains f names t)
    (htu : t.SameNames u) : s.Gains f names u := by
  refine ⟨hst.keeps.trans htu.keeps, hst.not_binds, fun g hg x => ?_⟩
  rw [htu.binds_iff g (Nat.lt_of_lt_of_le hg hst.keeps.size_le), hst.binds_iff g hg]

end Store

end ScopeScript
