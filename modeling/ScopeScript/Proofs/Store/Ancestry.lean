import ScopeScript.Proofs.Run.Operations
import ScopeScript.Proofs.Store.Permanence

/-!
# Ancestry

The ancestry of a frame is the frame itself, its parent, the parent of that one and so on, up to a
frame without a parent.  A name is resolved to the first frame of the ancestry that binds it.  So
what a frame sees of an assignment or of a declaration depends on the place that the frame written
to has in its own ancestry, and on the frames in front of that place
(`Run.operations_along_ancestry`).
-/

namespace ScopeScript

namespace Store

/-- The frames from `f` on to its parents, up to the one that has none. -/
inductive Ancestry (s : Store) : FrameId → List FrameId → Prop
  | outermost {f : FrameId} {frame : Frame} (hf : s.frames[f]? = some frame)
      (hparent : frame.parent = none) : Ancestry s f [f]
  | inner {f parent : FrameId} {frame : Frame} {chain : List FrameId}
      (hf : s.frames[f]? = some frame) (hparent : frame.parent = some parent)
      (hrest : Ancestry s parent chain) : Ancestry s f (f :: chain)

/-- `f` is one of the frames, and none in front of it binds `x`. -/
def Nearest (s : Store) (chain : List FrameId) (f : FrameId) (x : String) : Prop :=
  ∃ nearer farther, chain = nearer ++ f :: farther ∧ ∀ g ∈ nearer, ¬s.Binds g x

variable {s : Store} {f g owner : FrameId} {frame old new : Frame} {chain : List FrameId}
  {x y : String} {v : Value}

theorem exists_ancestry (hs : s.Parented) (hf : f < s.frames.size) :
    ∃ chain, s.Ancestry f chain := by
  induction f using Nat.strongRecOn with
  | ind f ih =>
    have hframe : s.frames[f]? = some s.frames[f] := Array.getElem?_eq_getElem hf
    cases hparent : s.frames[f].parent with
    | none => exact ⟨[f], .outermost hframe hparent⟩
    | some parent =>
      have hlt := hs f _ parent hframe hparent
      obtain ⟨chain, hchain⟩ := ih parent hlt (Nat.lt_trans hlt hf)
      exact ⟨f :: chain, .inner hframe hparent hchain⟩

/-- The number of steps does not matter once there are as many of them as frames. -/
theorem Ancestry.resolveWithin_eq (h : s.Ancestry f chain) (x : String) {n m : Nat}
    (hn : chain.length ≤ n) (hm : chain.length ≤ m) :
    s.resolveWithin x n f = s.resolveWithin x m f := by
  induction h generalizing n m with
  | outermost hf hparent =>
    obtain ⟨n, rfl⟩ := Nat.exists_eq_add_of_le' hn
    obtain ⟨m, rfl⟩ := Nat.exists_eq_add_of_le' hm
    simp only [List.length_singleton, resolveWithin, frame_eq_ok hf, hparent, bind, Except.bind]
  | inner hf hparent _ ih =>
    obtain ⟨n, rfl⟩ := Nat.exists_eq_add_of_le' hn
    obtain ⟨m, rfl⟩ := Nat.exists_eq_add_of_le' hm
    rw [List.length_cons, ← Nat.add_assoc, ← Nat.add_assoc, resolveWithin, resolveWithin]
    simp only [frame_eq_ok hf, hparent, bind, Except.bind]
    rw [ih (Nat.le_add_left _ n) (Nat.le_add_left _ m)]

theorem not_nearest_nil : ¬s.Nearest [] f x := by
  rintro ⟨nearer, farther, hchain, -⟩
  simp at hchain

theorem nearest_cons_iff :
    s.Nearest (g :: chain) f x ↔ g = f ∨ ¬s.Binds g x ∧ s.Nearest chain f x := by
  constructor
  · rintro ⟨nearer, farther, hchain, hnearer⟩
    cases nearer with
    | nil => exact .inl (List.cons.inj hchain).1
    | cons h nearer =>
      simp only [List.cons_append, List.cons.injEq] at hchain
      simp only [List.forall_mem_cons] at hnearer
      obtain ⟨rfl, rfl⟩ := hchain
      exact .inr ⟨hnearer.1, nearer, farther, rfl, hnearer.2⟩
  · rintro (rfl | ⟨hg, nearer, farther, rfl, hnearer⟩)
    · exact ⟨[], chain, rfl, by simp⟩
    · refine ⟨g :: nearer, farther, rfl, ?_⟩
      simpa only [List.forall_mem_cons] using And.intro hg hnearer

/-! ## Resolving names -/

theorem resolve_of_binds (hs : s.Parented) (hf : s.Binds f x) : s.resolve f x = .ok f := by
  obtain ⟨frame, hframe, hx⟩ := hf
  rw [resolve_eq hs hframe, if_pos hx]

theorem resolve_of_not_binds (hs : s.Parented) (hf : s.frames[f]? = some frame)
    (hx : ¬s.Binds f x) :
    s.resolve f x =
      match frame.parent with
      | some parent => s.resolve parent x
      | none => .error (.fault (.unknownVariable x)) := by
  rw [binds_iff_of_getElem? hf] at hx
  refine ((resolve_eq hs hf x).trans (if_neg hx)).trans ?_
  cases frame.parent <;> rfl

/-- A name is resolved to the first frame of the ancestry that binds it. -/
theorem resolve_eq_ok_iff (hs : s.Parented) (h : s.Ancestry f chain) :
    s.resolve f x = .ok owner ↔ s.Nearest chain owner x ∧ s.Binds owner x := by
  -- A frame that binds the name ends the search, so the ancestors matter only if it does not.
  have hhere {f : FrameId} (hx : s.Binds f x) (chain : List FrameId) :
      s.resolve f x = .ok owner ↔ s.Nearest (f :: chain) owner x ∧ s.Binds owner x := by
    rw [resolve_of_binds hs hx, nearest_cons_iff]
    constructor
    · rintro ⟨⟩
      exact ⟨.inl rfl, hx⟩
    · rintro ⟨rfl | ⟨hnot, -⟩, -⟩
      · rfl
      · exact absurd hx hnot
  induction h with
  | @outermost f frame hf hparent =>
    by_cases hx : s.Binds f x
    · exact hhere hx []
    · rw [resolve_of_not_binds hs hf hx, hparent, nearest_cons_iff]
      simp only [reduceCtorEq, false_iff, not_and]
      rintro (rfl | ⟨-, hnearest⟩)
      · exact hx
      · exact absurd hnearest not_nearest_nil
  | @inner f parent frame chain hf hparent _ ih =>
    by_cases hx : s.Binds f x
    · exact hhere hx chain
    · rw [resolve_of_not_binds hs hf hx, hparent, nearest_cons_iff]
      refine ih.trans ⟨fun ⟨hnearest, howner⟩ => ⟨.inr ⟨hx, hnearest⟩, howner⟩, ?_⟩
      rintro ⟨rfl | ⟨-, hnearest⟩, howner⟩
      · exact absurd howner hx
      · exact ⟨hnearest, howner⟩

/-- A name that no frame of the ancestry binds is unknown. -/
theorem resolve_eq_error_iff (hs : s.Parented) (h : s.Ancestry f chain) {halt : Halt} :
    s.resolve f x = .error halt ↔
      halt = .fault (.unknownVariable x) ∧ ∀ g ∈ chain, ¬s.Binds g x := by
  induction h with
  | @outermost f frame hf hparent =>
    by_cases hx : s.Binds f x
    · simp [resolve_of_binds hs hx, hx]
    · simp [resolve_of_not_binds hs hf hx, hparent, hx, eq_comm]
  | @inner f parent frame chain hf hparent _ ih =>
    by_cases hx : s.Binds f x
    · simp [resolve_of_binds hs hx, hx]
    · simp [resolve_of_not_binds hs hf hx, hparent, hx, ih]

/-! ## Writing to a frame -/

/-- A frame that sees the frame written to, with no other one in between that binds the name, sees
the new value. -/
theorem lookup_put_of_nearest (hs : s.Parented) (hold : s.frames[owner]? = some old)
    (hparent : new.parent = old.parent) {b : Binding} (hb : new.find? x = some b)
    (h : s.Ancestry g chain) (hnearest : s.Nearest chain owner x) :
    (s.put owner new).lookup g x = .ok b.value := by
  have hput := hs.put hold hparent
  have hsize := lt_size_of_getElem? hold
  have hself : (s.put owner new).lookup owner x = .ok b.value := by
    rw [lookup_eq hput (getElem?_put_self hsize new), hb]
  induction h with
  | @outermost g frame hg hroot =>
    obtain rfl | ⟨-, hrest⟩ := nearest_cons_iff.1 hnearest
    · exact hself
    · exact absurd hrest not_nearest_nil
  | @inner g parent frame chain hg hinner _ ih =>
    obtain rfl | ⟨hx, hrest⟩ := nearest_cons_iff.1 hnearest
    · exact hself
    · by_cases hgo : owner = g
      · subst hgo
        exact hself
      · have hnone : frame.find? x = none := by
          simpa [binds_iff_of_getElem? hg, Frame.binds] using hx
        rw [lookup_eq hput ((getElem?_put_of_ne hgo new).trans hg), hnone, hinner]
        exact ih hrest

/-- Other names, and frames with a binding of the name that is nearer, keep their values. -/
theorem lookup_put_of_not_nearest (hs : s.Parented) (hold : s.frames[owner]? = some old)
    (hparent : new.parent = old.parent) (hother : ∀ z ≠ x, new.find? z = old.find? z)
    (h : s.Ancestry g chain) (hy : ¬(y = x ∧ s.Nearest chain owner x)) :
    (s.put owner new).lookup g y = s.lookup g y := by
  have hput := hs.put hold hparent
  have hsize := lt_size_of_getElem? hold
  -- Whether a frame of the ancestry is the one written to decides what is found in it.
  have hstep {g : FrameId} {frame : Frame} {chain : List FrameId} (hg : s.frames[g]? = some frame)
      (hy : ¬(y = x ∧ s.Nearest (g :: chain) owner x)) :
      ∃ later, (s.put owner new).frames[g]? = some later ∧ later.parent = frame.parent ∧
        later.find? y = frame.find? y := by
    by_cases hgo : owner = g
    · subst hgo
      obtain rfl := Option.some.inj (hold.symm.trans hg)
      have hne : y ≠ x := fun hyx => hy ⟨hyx, nearest_cons_iff.2 (.inl rfl)⟩
      exact ⟨new, getElem?_put_self hsize new, hparent, hother y hne⟩
    · exact ⟨frame, (getElem?_put_of_ne hgo new).trans hg, rfl, rfl⟩
  induction h with
  | @outermost g frame hg hroot =>
    obtain ⟨later, hlater, hsame, hfind⟩ := hstep hg hy
    rw [lookup_eq hput hlater, lookup_eq hs hg, hsame, hfind, hroot]
  | @inner g parent frame chain hg hinner _ ih =>
    obtain ⟨later, hlater, hsame, hfind⟩ := hstep hg hy
    rw [lookup_eq hput hlater, lookup_eq hs hg, hsame, hfind, hinner]
    cases hb : frame.find? y with
    | some b => rfl
    | none =>
      refine ih fun ⟨hyx, hrest⟩ => hy ⟨hyx, nearest_cons_iff.2 (.inr ⟨?_, hrest⟩)⟩
      rw [binds_iff_of_getElem? hg, Frame.binds, ← hyx, hb]
      exact Bool.false_ne_true

/-! ## Assignments and declarations -/

variable {t : Store} {constant : Bool}

theorem exists_assign_iff :
    (∃ t, s.assign f x v = .ok t) ↔
      ∃ owner, s.resolve f x = .ok owner ∧ ¬s.BindsConstant owner x := by
  constructor
  · rintro ⟨t, ht⟩
    obtain ⟨owner, frame, howner, hframe, hvariable, -⟩ := exists_of_assign ht
    refine ⟨owner, howner, ?_⟩
    rintro ⟨frame', hframe', hconstant⟩
    obtain rfl := Option.some.inj (hframe.symm.trans hframe')
    simp [hvariable] at hconstant
  · rintro ⟨owner, howner, hvariable⟩
    obtain ⟨frame, hframe, -⟩ := exists_of_resolve howner
    have hx : ¬frame.isConstant x = true := fun hx => hvariable ⟨frame, hframe, hx⟩
    refine ⟨s.put owner (frame.set x v), ?_⟩
    simp [assign, howner, frame_eq_ok hframe, hx, bind, Except.bind, pure, Except.pure]

theorem exists_declare_iff (hf : f < s.frames.size) :
    (∃ t, s.declare f x v constant = .ok t) ↔ ¬s.Binds f x := by
  constructor
  · rintro ⟨t, ht⟩
    exact not_binds_of_declare ht
  · intro hx
    have hframe : s.frames[f]? = some s.frames[f] := Array.getElem?_eq_getElem hf
    have hnone : s.frames[f].find? x = none := by
      simpa [binds_iff_of_getElem? hframe, Frame.binds] using hx
    exact ⟨_, by rw [declare_eq hframe, hnone]⟩

/-- After an assignment the frames see the new value that resolve the name to the same frame. -/
theorem lookup_of_assign (hs : s.Parented) (h : s.assign f x v = .ok t)
    (hg : s.Ancestry g chain) (y : String) :
    (y = x ∧ s.resolve g x = s.resolve f x → t.lookup g y = .ok v) ∧
      (¬(y = x ∧ s.resolve g x = s.resolve f x) → t.lookup g y = s.lookup g y) := by
  obtain ⟨owner, frame, howner, hframe, -, rfl⟩ := exists_of_assign h
  obtain ⟨frame', hframe', hbinds⟩ := exists_of_resolve howner
  obtain rfl := Option.some.inj (hframe.symm.trans hframe')
  have hsame : s.resolve g x = s.resolve f x ↔ s.Nearest chain owner x := by
    rw [howner, resolve_eq_ok_iff hs hg, and_iff_left ((binds_iff_of_getElem? hframe).2 hbinds)]
  rw [hsame]
  obtain ⟨b, hb⟩ := Option.isSome_iff_exists.1 hbinds
  have hnew : (frame.set x v).find? x = some { b with value := v } := by
    simp [Frame.find?_set, hb]
  have hother : ∀ z ≠ x, (frame.set x v).find? z = frame.find? z := by
    intro z hz
    simp [Frame.find?_set, hz]
  have hparent : (frame.set x v).parent = frame.parent := rfl
  constructor
  · rintro ⟨rfl, hnearest⟩
    exact lookup_put_of_nearest hs hframe hparent hnew hg hnearest
  · exact lookup_put_of_not_nearest hs hframe hparent hother hg

/-- After a declaration the frames see the new value that have the frame in their ancestry, with
none in front of it that binds the name. -/
theorem lookup_of_declare (hs : s.Parented) (h : s.declare f x v constant = .ok t)
    (hg : s.Ancestry g chain) (y : String) :
    (y = x ∧ s.Nearest chain f x → t.lookup g y = .ok v) ∧
      (¬(y = x ∧ s.Nearest chain f x) → t.lookup g y = s.lookup g y) := by
  obtain ⟨frame, hframe, -, rfl⟩ := exists_of_declare h
  have hnew : (frame.add ⟨x, v, constant⟩).find? x =
      some ⟨x, v, constant || frame.isConstant x⟩ := by
    simp [Frame.find?_add]
  have hother : ∀ z ≠ x, (frame.add ⟨x, v, constant⟩).find? z = frame.find? z := by
    intro z hz
    simp [Frame.find?_add, hz.symm]
  have hparent : (frame.add ⟨x, v, constant⟩).parent = frame.parent := rfl
  constructor
  · rintro ⟨rfl, hnearest⟩
    exact lookup_put_of_nearest hs hframe hparent hnew hg hnearest
  · exact lookup_put_of_not_nearest hs hframe hparent hother hg

end Store

namespace Run

variable {s : State}

theorem outcome_rebind_eq_ok_iff {op : Store → Except Halt Store} {v w : Value} :
    (rebind op v).outcome s = .ok w ↔ w = v ∧ ∃ t, op s.store = .ok t := by
  rw [outcome_rebind]
  cases op s.store with
  | ok t => simp [Except.map, eq_comm]
  | error h => simp [Except.map]

theorem final_rebind_of_error {op : Store → Except Halt Store} {v : Value} {h : Halt}
    (hop : (rebind op v).outcome s = .error h) : (rebind op v).final s = s := by
  rw [outcome_rebind] at hop
  rw [final_rebind]
  cases hstore : op s.store with
  | ok t =>
    rw [hstore] at hop
    cases hop
  | error h => rfl

/-- The operations on a frame `f` and what is seen of them from a frame `g`, in terms of the
ancestry of both.  A name is resolved to the first frame of the ancestry that binds it, and is
unknown if none does.  An assignment succeeds if the name is resolved to a frame where it is no
constant, and is seen from the frames that resolve the name to that one.  A declaration succeeds if
the frame itself does not bind the name, and is seen from the frames with this one in their ancestry
and none in front of it that binds the name.  What other names or other frames see stays as it was,
and an operation that fails changes nothing. -/
theorem operations_along_ancestry (hs : s.store.Parented) {f g : FrameId}
    (hf : f < s.store.frames.size) (hg : g < s.store.frames.size) (x y : String) (v : Value)
    (constant : Bool) :
    ∃ chain chain', s.store.Ancestry f chain ∧ s.store.Ancestry g chain' ∧
      (∀ owner, (resolve f x).outcome s = .ok owner ↔
        s.store.Nearest chain owner x ∧ s.store.Binds owner x) ∧
      (∀ h, (resolve f x).outcome s = .error h ↔
        h = .fault (.unknownVariable x) ∧ ∀ p ∈ chain, ¬s.store.Binds p x) ∧
      (let m := assign f x v
       ((∃ w, m.outcome s = .ok w) ↔
          ∃ owner, (resolve f x).outcome s = .ok owner ∧ ¬s.store.BindsConstant owner x) ∧
        (∀ w, m.outcome s = .ok w → w = v ∧
          (y = x ∧ (resolve g x).outcome s = (resolve f x).outcome s →
            (lookup g y).outcome (m.final s) = .ok v) ∧
          (¬(y = x ∧ (resolve g x).outcome s = (resolve f x).outcome s) →
            (lookup g y).outcome (m.final s) = (lookup g y).outcome s)) ∧
        ∀ h, m.outcome s = .error h → m.final s = s) ∧
      (let m := declare f x v constant
       ((∃ w, m.outcome s = .ok w) ↔ ¬s.store.Binds f x) ∧
        (∀ w, m.outcome s = .ok w → w = v ∧
          (y = x ∧ s.store.Nearest chain' f x → (lookup g y).outcome (m.final s) = .ok v) ∧
          (¬(y = x ∧ s.store.Nearest chain' f x) →
            (lookup g y).outcome (m.final s) = (lookup g y).outcome s)) ∧
        ∀ h, m.outcome s = .error h → m.final s = s) := by
  obtain ⟨chain, hchain⟩ := Store.exists_ancestry hs hf
  obtain ⟨chain', hchain'⟩ := Store.exists_ancestry hs hg
  refine ⟨chain, chain', hchain, hchain', ?_⟩
  simp only [resolve_eq_query, lookup_eq_query, assign_eq_rebind, declare_eq_rebind, outcome_query,
    outcome_rebind_eq_ok_iff]
  refine ⟨fun owner => Store.resolve_eq_ok_iff hs hchain,
    fun h => Store.resolve_eq_error_iff hs hchain, ⟨?_, ?_, ?_⟩, ?_, ?_, ?_⟩
  · simpa using Store.exists_assign_iff
  · rintro w ⟨rfl, t, ht⟩
    rw [final_rebind, ht]
    exact ⟨rfl, Store.lookup_of_assign hs ht hchain' y⟩
  · exact fun h => final_rebind_of_error
  · simpa using Store.exists_declare_iff hf
  · rintro w ⟨rfl, t, ht⟩
    rw [final_rebind, ht]
    exact ⟨rfl, Store.lookup_of_declare hs ht hchain' y⟩
  · exact fun h => final_rebind_of_error

/-- Two frames below the same one, of which the second binds the name itself: what is assigned from
the first one is seen in the frame above both of them, and not in the second one. -/
theorem operations_along_ancestry_shadowed :
    let s := State.ofStore ⟨#[⟨none, [("x", .null)], []⟩, .empty (some 0),
      ⟨some 0, [("x", .bool true)], ["x"]⟩], 0⟩ none (.still ⟨0⟩)
    let m := assign 1 "x" (.bool false)
    s.store.Parented ∧ m.outcome s = .ok (.bool false) ∧
      (lookup 0 "x").outcome (m.final s) = .ok (.bool false) ∧
      (lookup 2 "x").outcome (m.final s) = .ok (.bool true) := by
  intro s m
  have hs : s.store.Parented := by
    intro f frame parent hf hparent
    rcases f with _ | _ | _ | f
    · obtain rfl := Option.some.inj hf
      cases hparent
    · obtain rfl := Option.some.inj hf
      obtain rfl := Option.some.inj hparent
      decide
    · obtain rfl := Option.some.inj hf
      obtain rfl := Option.some.inj hparent
      decide
    · cases hf
  have hm : m.outcome s = .ok (.bool false) := rfl
  obtain ⟨-, -, -, -, -, -, ⟨-, habove, -⟩, -⟩ := operations_along_ancestry hs
    (f := 1) (g := 0) (by decide) (by decide) "x" "x" (.bool false) true
  obtain ⟨-, -, -, -, -, -, ⟨-, hbeside, -⟩, -⟩ := operations_along_ancestry hs
    (f := 1) (g := 2) (by decide) (by decide) "x" "x" (.bool false) true
  obtain ⟨-, hseen, -⟩ := habove _ hm
  obtain ⟨-, -, hunseen⟩ := hbeside _ hm
  have hsame : (resolve 0 "x").outcome s = (resolve 1 "x").outcome s := rfl
  have hother : (resolve 2 "x").outcome s ≠ (resolve 1 "x").outcome s := by
    intro h
    cases h
  exact ⟨hs, hm, hseen ⟨rfl, hsame⟩, hunseen fun h => hother h.2⟩

end Run

end ScopeScript
