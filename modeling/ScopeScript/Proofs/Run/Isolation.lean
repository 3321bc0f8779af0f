import ScopeScript.Proofs.Run.Simulation
import ScopeScript.Proofs.Store.Reachability

/-!
# Isolation

A run sees only the frames that are reachable from where it starts: those that parents and the
functions in values lead to.  Two stores that agree on these frames are the same to it, and it
changes no other frame of them.
-/

namespace ScopeScript

/-! ## New frames -/

namespace Renaming

/-- The numbers from `n` on become those from `m` on. -/
def shift (n m k : Nat) : Nat := if k < n then k else k - n + m

theorem shift_of_lt {n m k : Nat} (h : k < n) : shift n m k = k := by
  rw [shift, if_pos h]

theorem shift_add (n m k : Nat) : shift n m (n + k) = m + k := by
  rw [shift, if_neg (by omega)]
  omega

theorem shift_inj {n m k l : Nat} (hk : k < n → k < m) (hl : l < n → l < m)
    (h : shift n m k = shift n m l) : k = l := by
  unfold shift at h
  split at h
  · split at h
    · exact h
    · have := hk (by assumption)
      omega
  · split at h
    · have := hl (by assumption)
      omega
    · omega

/-- What is made after the first store is numbered as if it were made after the second. -/
def after (s t : Store) : Renaming :=
  ⟨shift s.frames.size t.frames.size, shift s.closures t.closures⟩

variable (s t : Store)

theorem frame_after_of_lt {f : Nat} (h : f < s.frames.size) : (after s t).frame f = f :=
  shift_of_lt h

theorem identity_after_of_lt {i : Nat} (h : i < s.closures) : (after s t).identity i = i :=
  shift_of_lt h

theorem frame_after_add (k : Nat) :
    (after s t).frame (s.frames.size + k) = t.frames.size + k :=
  shift_add _ _ k

theorem identity_after_add (k : Nat) :
    (after s t).identity (s.closures + k) = t.closures + k :=
  shift_add _ _ k

end Renaming

/-! ## Two runs from stores that agree -/

/-- A run that started with the store `s` may meet the frame when `n` frames were made: the roots
lead to it, or it is new. -/
def Store.Met (s : Store) (roots : FrameId → Prop) (n : Nat) (f : FrameId) : Prop :=
  s.Reachable roots f ∨ s.frames.size ≤ f ∧ f < n

variable {roots : FrameId → Prop} {s₀ t₀ s t : State}

/-- Two runs that started in `s₀` and `t₀` and did the same since then. -/
structure Parallel (roots : FrameId → Prop) (s₀ t₀ s t : State) : Prop where
  left : s.store.Parented
  right : t.store.Parented
  size : ∃ k, s.store.frames.size = s₀.store.frames.size + k ∧
    t.store.frames.size = t₀.store.frames.size + k
  closures : ∃ k, s.store.closures = s₀.store.closures + k ∧
    t.store.closures = t₀.store.closures + k
  met : ∀ f, s₀.store.Met roots s.store.frames.size f → ∃ frame, s.store.frames[f]? = some frame ∧
    t.store.frames[(Renaming.after s₀.store t₀.store).frame f]? =
      some (frame.rename (Renaming.after s₀.store t₀.store)) ∧
    (∀ p, frame.parent = some p → s₀.store.Met roots s.store.frames.size p) ∧
    ∀ c ∈ frame.closures, s₀.store.Met roots s.store.frames.size c.frame
  kept : ∀ f < s₀.store.frames.size, ¬s₀.store.Reachable roots f →
    s.store.frames[f]? = s₀.store.frames[f]?
  kept_right : ∀ f < t₀.store.frames.size, ¬t₀.store.Reachable roots f →
    t.store.frames[f]? = t₀.store.frames[f]?
  unlimited : s.sink.limit = none ∧ t.sink.limit = none
  printed : ∃ bytes, s.sink.written = s₀.sink.written ++ bytes ∧
    t.sink.written = t₀.sink.written ++ bytes
  events : ∃ log, s.events = s₀.events ++ log ∧ t.events = t₀.events ++ log
  clock : t₀.clock = s₀.clock → t.clock = s.clock

/-- The coupling of runs that started in `s₀` and `t₀`. -/
def Parallel.coupling (roots : FrameId → Prop) (s₀ t₀ : State) : Coupling where
  numbers := Renaming.after s₀.store t₀.store
  Rel := Parallel roots s₀ t₀
  Seen := s₀.store.Met roots
  MayDeclare _ _ := True

namespace Parallel

variable (hagree : Store.AgreeFrom roots s₀.store t₀.store)

theorem met_mono {n k : Nat} {f : FrameId} (hf : s₀.store.Met roots n f) (hn : n ≤ k) :
    s₀.store.Met roots k f :=
  hf.imp id fun hnew => ⟨hnew.1, Nat.lt_of_lt_of_le hnew.2 hn⟩

theorem values_mono {n k : Nat} {v w : Value} (h : (coupling roots s₀ t₀).Values n v w)
    (hk : n ≤ k) : (coupling roots s₀ t₀).Values k v w :=
  ⟨h.1, fun c hc => met_mono (h.2 c hc) hk⟩

include hagree in
theorem lt_right_of_lt {n : Nat} {f : FrameId} (hf : s₀.store.Met roots n f)
    (hlt : f < s₀.store.frames.size) : f < t₀.store.frames.size := by
  obtain hf | hf := hf
  · obtain ⟨frame, -, hframe⟩ := hagree.exists_frame hf
    exact Store.lt_size_of_getElem? hframe
  · exact absurd hlt (Nat.not_lt.2 hf.1)

include hagree in
theorem frame_inj {n : Nat} {f g : FrameId} (hf : s₀.store.Met roots n f)
    (hg : s₀.store.Met roots n g) (h : (Renaming.after s₀.store t₀.store).frame f =
      (Renaming.after s₀.store t₀.store).frame g) : f = g :=
  Renaming.shift_inj (lt_right_of_lt hagree hf) (lt_right_of_lt hagree hg) h

include hagree in
/-- What the first store refers to where the roots lead to keeps its number. -/
theorem rename_eq_self {f : FrameId} {frame : Frame} (hf : s₀.store.Reachable roots f)
    (hframe : s₀.store.frames[f]? = some frame) :
    frame.rename (Renaming.after s₀.store t₀.store) = frame := by
  refine Frame.rename_eq_self _ frame (fun p hp => ?_) fun c hc => ?_
  · exact Renaming.frame_after_of_lt _ _ ((hf.parent hframe hp).lt hagree.left hagree.roots_made)
  · obtain ⟨hlt, hidentity⟩ := hagree.left.made f frame hframe c hc
    rw [Closure.rename, Renaming.frame_after_of_lt _ _ hlt,
      Renaming.identity_after_of_lt _ _ hidentity]

include hagree in
theorem start (hs : s₀.sink.limit = none) (ht : t₀.sink.limit = none) :
    Parallel roots s₀ t₀ s₀ t₀ where
  left := hagree.left.parented
  right := hagree.right.parented
  size := ⟨0, rfl, rfl⟩
  closures := ⟨0, rfl, rfl⟩
  met f hf := by
    obtain hf | ⟨hle, hlt⟩ := hf
    · obtain ⟨frame, hframe, hframe'⟩ := hagree.exists_frame hf
      have hlt := hf.lt hagree.left hagree.roots_made
      refine ⟨frame, hframe, ?_, fun p hp => .inl (hf.parent hframe hp), fun c hc => ?_⟩
      · rw [rename_eq_self hagree hf hframe, ← hframe']
        exact congrArg _ (Renaming.frame_after_of_lt _ _ hlt)
      · exact .inl (hf.captured hframe hc)
    · exact absurd hlt (Nat.not_lt.2 hle)
  kept _ _ _ := rfl
  kept_right _ _ _ := rfl
  unlimited := ⟨hs, ht⟩
  printed := ⟨#[], by simp⟩
  events := ⟨#[], by simp⟩
  clock := id

/-! ### Changes of the stores -/

/-- Replacing a frame that may be met, in both stores. -/
theorem put (h : Parallel roots s₀ t₀ s t) {f : FrameId} {old new : Frame}
    (hagree : Store.AgreeFrom roots s₀.store t₀.store)
    (hf : s₀.store.Met roots s.store.frames.size f) (hold : s.store.frames[f]? = some old)
    (hparent : new.parent = old.parent)
    (hnew : ∀ c ∈ new.closures, s₀.store.Met roots s.store.frames.size c.frame) :
    Parallel roots s₀ t₀ { s with store := s.store.put f new }
      { t with
        store := t.store.put ((Renaming.after s₀.store t₀.store).frame f)
          (new.rename (Renaming.after s₀.store t₀.store)) } := by
  have hmet := h.met
  obtain ⟨old', hold', hright, hparents, -⟩ := hmet f hf
  obtain rfl : old' = old := Option.some.inj (hold'.symm.trans hold)
  refine { h with
    left := h.left.put hold hparent
    right := h.right.put hright (by rw [Frame.parent_rename, Frame.parent_rename, hparent])
    size := by simpa using h.size
    closures := h.closures
    met := fun g hg => ?_
    kept := fun g hg hunreached => ?_
    kept_right := fun g hg hunreached => ?_ }
  · rw [Store.size_put] at hg ⊢
    by_cases hfg : f = g
    · subst hfg
      refine ⟨new, Store.getElem?_put_self (Store.lt_size_of_getElem? hold) new,
        Store.getElem?_put_self (Store.lt_size_of_getElem? hright) _, ?_, hnew⟩
      rw [hparent]
      exact hparents
    · obtain ⟨frame, hframe, hframe', hrest⟩ := hmet g hg
      have hne := fun heq => hfg (frame_inj hagree hf hg heq)
      exact ⟨frame, (Store.getElem?_put_of_ne hfg new).trans hframe,
        (Store.getElem?_put_of_ne hne _).trans hframe', hrest⟩
  · have hne : f ≠ g := by
      rintro rfl
      exact hf.elim hunreached fun hnew => Nat.not_lt.2 hnew.1 hg
    exact (Store.getElem?_put_of_ne hne new).trans (h.kept g hg hunreached)
  · -- In the second store a frame that may be met is reachable too, or it is new.
    have hne : (Renaming.after s₀.store t₀.store).frame f ≠ g := by
      rintro rfl
      obtain hreach | ⟨hle, -⟩ := hf
      · have hlt := hreach.lt hagree.left hagree.roots_made
        refine hunreached ((hagree.reachable_iff _).2 ?_)
        rwa [Renaming.frame_after_of_lt _ _ hlt]
      · obtain ⟨k, rfl⟩ := Nat.exists_eq_add_of_le hle
        rw [Renaming.frame_after_add] at hg
        omega
    exact (Store.getElem?_put_of_ne hne _).trans (h.kept_right g hg hunreached)

theorem frame_size (h : Parallel roots s₀ t₀ s t) :
    (Renaming.after s₀.store t₀.store).frame s.store.frames.size = t.store.frames.size := by
  obtain ⟨k, hs, ht⟩ := h.size
  rw [hs, ht, Renaming.frame_after_add]

/-- Making a frame below one that may be met, in both stores. -/
theorem newFrame (h : Parallel roots s₀ t₀ s t) {p : FrameId}
    (hp : s₀.store.Met roots s.store.frames.size p) :
    Parallel roots s₀ t₀ { s with store := (s.store.newFrame (some p)).2 }
      { t with
        store := (t.store.newFrame (some ((Renaming.after s₀.store t₀.store).frame p))).2 } := by
  obtain ⟨frame, hframe, hframe', -⟩ := h.met p hp
  have hgrow (f : FrameId) (hf : s₀.store.Met roots s.store.frames.size f) :
      s₀.store.Met roots (s.store.frames.size + 1) f := met_mono hf (Nat.le_succ _)
  obtain ⟨k, hs, ht⟩ := h.size
  refine { h with
    left := h.left.newFrame (Store.lt_size_of_getElem? hframe)
    right := h.right.newFrame (Store.lt_size_of_getElem? hframe')
    size := ⟨k + 1, ?_, ?_⟩
    closures := h.closures
    met := fun g hg => ?_
    kept := fun g hg hunreached => ?_
    kept_right := fun g hg hunreached => ?_ }
  · rw [Store.size_newFrame, hs, Nat.add_assoc]
  · rw [Store.size_newFrame, ht, Nat.add_assoc]
  · rw [Store.size_newFrame] at hg ⊢
    by_cases hnew : g = s.store.frames.size
    · subst hnew
      refine ⟨.empty (some p), Store.getElem?_newFrame_size _ _, ?_, fun q hq => ?_, ?_⟩
      · rw [h.frame_size, Store.getElem?_newFrame_size, Frame.empty_rename, Option.map_some]
      · obtain rfl := Option.some.inj hq
        exact hgrow p hp
      · simp [Frame.closures, Frame.empty]
    · have hg' : s₀.store.Met roots s.store.frames.size g :=
        hg.imp id fun hlt => ⟨hlt.1, Nat.lt_of_le_of_ne (Nat.le_of_lt_succ hlt.2) hnew⟩
      obtain ⟨old, hold, hold', hparents, hclosures⟩ := h.met g hg'
      exact ⟨old, Store.getElem?_newFrame_of_eq_some hold _,
        Store.getElem?_newFrame_of_eq_some hold' _, fun q hq => hgrow q (hparents q hq),
        fun c hc => hgrow c.frame (hclosures c hc)⟩
  · have hlt : g < s.store.frames.size := by omega
    exact (Store.getElem?_newFrame_of_lt hlt _).trans (h.kept g hg hunreached)
  · have hlt : g < t.store.frames.size := by omega
    exact (Store.getElem?_newFrame_of_lt hlt _).trans (h.kept_right g hg hunreached)

/-! ### Operations -/

theorem lookup (h : Parallel roots s₀ t₀ s t) (x : String) (f : FrameId)
    (hf : s₀.store.Met roots s.store.frames.size f) :
    Coupling.Alike ((coupling roots s₀ t₀).Values s.store.frames.size) (s.store.lookup f x)
      (t.store.lookup ((Renaming.after s₀.store t₀.store).frame f) x) := by
  -- A parent was made before its children, so the way up is an induction on the number.
  induction f using Nat.strongRecOn with
  | ind f ih =>
    obtain ⟨frame, hframe, hframe', hparents, hclosures⟩ := h.met f hf
    rw [Store.lookup_eq h.left hframe, Store.lookup_eq h.right hframe', Frame.find?_rename]
    cases hb : frame.find? x with
    | some b => exact .ok ⟨rfl, fun c hc => hclosures c (frame.closures_of_find? hb hc)⟩
    | none =>
      rw [Frame.parent_rename]
      cases hp : frame.parent with
      | none => exact .fault _
      | some p => exact ih p (h.left f frame p hframe hp) (hparents p hp)

theorem assign (h : Parallel roots s₀ t₀ s t) (hagree : Store.AgreeFrom roots s₀.store t₀.store)
    (x : String) {v w : Value} (hvw : (coupling roots s₀ t₀).Values s.store.frames.size v w)
    (f : FrameId) (hf : s₀.store.Met roots s.store.frames.size f) :
    Coupling.Alike (fun store store' => Parallel roots s₀ t₀ { s with store := store }
        { t with store := store' } ∧ s.store.frames.size ≤ store.frames.size)
      (s.store.assign f x v)
      (t.store.assign ((Renaming.after s₀.store t₀.store).frame f) x w) := by
  obtain ⟨rfl, hseen⟩ := hvw
  induction f using Nat.strongRecOn with
  | ind f ih =>
    obtain ⟨frame, hframe, hframe', hparents, hclosures⟩ := h.met f hf
    rw [Store.assign_eq h.left hframe, Store.assign_eq h.right hframe', Frame.find?_rename]
    cases hb : frame.find? x with
    | some b =>
      have hset (c : Closure) (hc : c ∈ (frame.set x v).closures) :
          s₀.store.Met roots s.store.frames.size c.frame := by
        obtain hc | hc := List.mem_append.1 (frame.closures_set x v hc)
        · exact hseen c hc
        · exact hclosures c hc
      simp only [Option.map_some, Binding.rename]
      split
      · exact .fault _
      · have hput := h.put hagree hf hframe (frame.parent_set x v) hset
        rw [← Frame.set_rename] at hput
        exact .ok ⟨hput, Nat.le_of_eq (Store.size_put _ _ _).symm⟩
    | none =>
      rw [Frame.parent_rename]
      cases hp : frame.parent with
      | none => exact .fault _
      | some p => exact ih p (h.left f frame p hframe hp) (hparents p hp)

theorem declare (h : Parallel roots s₀ t₀ s t) (hagree : Store.AgreeFrom roots s₀.store t₀.store)
    (x : String) (constant : Bool) {v w : Value}
    (hvw : (coupling roots s₀ t₀).Values s.store.frames.size v w) (f : FrameId)
    (hf : s₀.store.Met roots s.store.frames.size f) :
    Coupling.Alike (fun store store' => Parallel roots s₀ t₀ { s with store := store }
        { t with store := store' } ∧ s.store.frames.size ≤ store.frames.size)
      (s.store.declare f x v constant)
      (t.store.declare ((Renaming.after s₀.store t₀.store).frame f) x w constant) := by
  obtain ⟨rfl, hseen⟩ := hvw
  obtain ⟨frame, hframe, hframe', hparents, hclosures⟩ := h.met f hf
  rw [Store.declare_eq hframe, Store.declare_eq hframe', Frame.find?_rename]
  cases hb : frame.find? x with
  | some b => exact .fault _
  | none =>
    have hadd (c : Closure) (hc : c ∈ (frame.add ⟨x, v, constant⟩).closures) :
        s₀.store.Met roots s.store.frames.size c.frame := by
      rw [Frame.closures_add] at hc
      obtain hc | hc := List.mem_append.1 hc
      · exact hseen c hc
      · exact hclosures c hc
    have hput := h.put hagree hf hframe (frame.parent_add _) hadd
    rw [← Frame.add_rename] at hput
    exact .ok ⟨hput, Nat.le_of_eq (Store.size_put _ _ _).symm⟩

theorem emit (h : Parallel roots s₀ t₀ s t) (e : Event) :
    Parallel roots s₀ t₀ { s with events := s.events.push e }
      { t with events := t.events.push e } := by
  obtain ⟨log, hs, ht⟩ := h.events
  refine { h with events := ⟨log.push e, ?_, ?_⟩ }
  · rw [hs, Array.push_append]
  · rw [ht, Array.push_append]

theorem tick (h : Parallel roots s₀ t₀ s t) :
    Parallel roots s₀ t₀ { s with clock := s.clock.tick } { t with clock := t.clock.tick } :=
  { h with clock := fun heq => congrArg Clock.tick (h.clock heq) }

theorem write_matches (n : Nat) (text : String) :
    (coupling roots s₀ t₀).Matches n (fun _ _ _ => True) (Run.write text) (Run.write text) := by
  intro s t h hn
  have hunlimited := h.unlimited
  obtain ⟨bytes, hs, ht⟩ := h.printed
  have hwritten : Parallel roots s₀ t₀
      { s with sink := ⟨s.sink.written ++ text.toUTF8.data, none⟩ }
      { t with sink := ⟨t.sink.written ++ text.toUTF8.data, none⟩ } := by
    refine { h with
      unlimited := ⟨rfl, rfl⟩
      printed := ⟨bytes ++ text.toUTF8.data, ?_, ?_⟩ }
    · rw [hs, Array.append_assoc]
    · rw [ht, Array.append_assoc]
  rw [Run.write_apply, Run.write_apply, Sink.write, Sink.write, hunlimited.1, hunlimited.2]
  exact .ok hwritten hn trivial

/-- Runs from stores that agree where the roots lead to do the same. -/
theorem isSimulation (hagree : Store.AgreeFrom roots s₀.store t₀.store) {host : Host}
    (hnatives : ∀ act ∈ host.actions, act = Builtin.print ∨ act = Builtin.sqrt ∨
      act = Builtin.clock ∧ t₀.clock = s₀.clock) :
    (coupling roots s₀ t₀).IsSimulation host where
  seen_mono hf hn := met_mono hf hn
  lookup hf x := Coupling.Matches.lookup fun s t h hn => h.lookup x _ (met_mono hf hn)
  assign {n f v w} hf hvw x :=
    Coupling.Matches.assign (fun s t (h : Parallel roots s₀ t₀ s t) hn =>
      h.assign hagree x (values_mono hvw hn) f (met_mono hf hn)) fun _ hk => values_mono hvw hk
  declare {n f v w x} hf _ hvw constant :=
    Coupling.Matches.declare (fun s t (h : Parallel roots s₀ t₀ s t) hn =>
      h.declare hagree x constant (values_mono hvw hn) f (met_mono hf hn))
      fun _ hk => values_mono hvw hk
  newFrame {n f} hf := by
    intro s t (h : Parallel roots s₀ t₀ s t) hn
    have hsize := Store.size_newFrame s.store (some f)
    refine .ok (h.newFrame (met_mono hf hn)) ?_ ⟨h.frame_size.symm, ?_, fun _ => trivial⟩
    · exact Nat.le_trans hn (hsize ▸ Nat.le_succ _)
    · obtain ⟨k, hs, -⟩ := h.size
      exact .inr ⟨hs ▸ Nat.le_add_right _ k, hsize ▸ Nat.lt_succ_self _⟩
  newClosure n := by
    intro s t (h : Parallel roots s₀ t₀ s t) hn
    obtain ⟨k, hs, ht⟩ := h.closures
    have hnext : Parallel roots s₀ t₀ { s with store := s.store.newClosure.2 }
        { t with store := t.store.newClosure.2 } :=
      { h with closures := ⟨k + 1, congrArg Nat.succ hs, congrArg Nat.succ ht⟩ }
    refine .ok hnext hn ?_
    show t.store.closures = (Renaming.after s₀.store t₀.store).identity s.store.closures
    rw [hs, ht, Renaming.identity_after_add]
  emit n e := fun s t (h : Parallel roots s₀ t₀ s t) hn => .ok (h.emit e) hn trivial
  native {n args args'} hargs m frame frame' := by
    refine Coupling.action_matches (write_matches n) (fun act hact => ?_) hargs m frame frame'
    refine (hnatives act hact).imp id (Or.imp id fun hclock => ⟨hclock.1, ?_⟩)
    exact fun s t h => ⟨h.clock hclock.2, h.tick⟩

end Parallel

/-! ## What a run can see and change -/

/-- Two computations do the same from two states, and only with what the roots lead to. -/
structure Isolated (roots : FrameId → Prop) (s t : State) (m m' : Run Value) : Prop where
  outcome : m'.outcome t = (m.outcome s).map (Value.rename (Renaming.after s.store t.store))
  no_missing : ∀ f, m.outcome s ≠ .error (.missingFrame f)
  size : ∃ k, (m.final s).store.frames.size = s.store.frames.size + k ∧
    (m'.final t).store.frames.size = t.store.frames.size + k
  printed : ∃ bytes, (m.final s).sink.written = s.sink.written ++ bytes ∧
    (m'.final t).sink.written = t.sink.written ++ bytes
  events : ∃ log, (m.final s).events = s.events ++ log ∧ (m'.final t).events = t.events ++ log
  frames : ∀ f, s.store.Met roots (m.final s).store.frames.size f →
    (m'.final t).store.frames[(Renaming.after s.store t.store).frame f]? =
      ((m.final s).store.frames[f]?).map (Frame.rename (Renaming.after s.store t.store))
  unreached : ∀ f < s.store.frames.size, ¬s.store.Reachable roots f →
    (m.final s).store.frames[f]? = s.store.frames[f]?
  unreached_right : ∀ f < t.store.frames.size, ¬t.store.Reachable roots f →
    (m'.final t).store.frames[f]? = t.store.frames[f]?
  result_met : ∀ v, m.outcome s = .ok v →
    ∀ c ∈ v.closures, s.store.Met roots (m.final s).store.frames.size c.frame
  changed_met : ∀ (f : FrameId) (frame : Frame), (m.final s).store.frames[f]? = some frame →
    s.store.frames[f]? ≠ some frame →
    (∀ p, frame.parent = some p → s.store.Met roots (m.final s).store.frames.size p) ∧
      ∀ c ∈ frame.closures, s.store.Met roots (m.final s).store.frames.size c.frame

theorem isolated_of_matches (hagree : Store.AgreeFrom roots s.store t.store)
    (hs : s.sink.limit = none) (ht : t.sink.limit = none) {m m' : Run Value}
    (hmatches : (Parallel.coupling roots s t).Matches s.store.frames.size
      (Parallel.coupling roots s t).Values m m') : Isolated roots s t m m' := by
  obtain ⟨houtcome, hmissing, hfinal, hresult⟩ :=
    hmatches.outcome (Parallel.start hagree hs ht) (Nat.le_refl _)
  have hfinal : Parallel roots s t (m.final s) (m'.final t) := hfinal
  refine ⟨houtcome, hmissing, hfinal.size, hfinal.printed, hfinal.events, fun f hf => ?_,
    hfinal.kept, hfinal.kept_right, hresult, fun f frame hframe hchanged => ?_⟩
  · obtain ⟨frame, hframe, hframe', -⟩ := hfinal.met f hf
    rw [hframe, hframe', Option.map_some]
  · -- A frame that is neither reachable nor new was kept, so one that changed may be met.
    have hf : s.store.Met roots (m.final s).store.frames.size f := by
      by_cases hnew : s.store.frames.size ≤ f
      · exact .inr ⟨hnew, Store.lt_size_of_getElem? hframe⟩
      · by_cases hreach : s.store.Reachable roots f
        · exact .inl hreach
        · have hkept := hfinal.kept f (Nat.lt_of_not_le hnew) hreach
          exact absurd (hkept.symm.trans hframe) hchanged
    obtain ⟨frame', hframe', -, hrest⟩ := hfinal.met f hf
    obtain rfl := Option.some.inj (hframe'.symm.trans hframe)
    exact hrest

/-- The frames that a function value and the arguments of a call refer to. -/
def Closure.callRoots (c : Closure) (args : List Value) (f : FrameId) : Prop :=
  ∃ d ∈ c :: args.flatMap Value.closures, d.frame = f

/-- A program sees and changes only what its frame leads to.  A call of a function sees and changes
only what the function and the arguments lead to, wherever it is made. -/
theorem isolated_run_and_call {host : Host} {s t : State}
    (hnatives : ∀ act ∈ host.actions, act = Builtin.print ∨ act = Builtin.sqrt ∨
      act = Builtin.clock ∧ t.clock = s.clock)
    (hs : s.sink.limit = none) (ht : t.sink.limit = none) (depth : Nat) :
    (∀ (p : Program) (e : FrameId), Store.AgreeFrom (· = e) s.store t.store →
      Isolated (· = e) s t (p.run host depth e) (p.run host depth e)) ∧
    ∀ (c : Closure) (args : List Value) (caller caller' : FrameId),
      Store.AgreeFrom (c.callRoots args) s.store t.store →
      (∀ d ∈ c :: args.flatMap Value.closures, d.identity < s.store.closures) →
      Isolated (c.callRoots args) s t (Run.call host depth (.function c) args caller)
        (Run.call host depth (.function c) args caller') := by
  refine ⟨fun p e hagree => ?_, fun c args caller caller' hagree hmade => ?_⟩
  · have hsimulation := Parallel.isSimulation hagree hnatives
    have he : (Parallel.coupling (· = e) s t).numbers.frame e = e :=
      Renaming.frame_after_of_lt _ _ (hagree.roots_made e rfl)
    have hrun := hsimulation.program (n := s.store.frames.size) depth p
      (.inl (.root rfl)) fun _ _ => trivial
    rw [he] at hrun
    exact isolated_of_matches hagree hs ht hrun
  · have hsimulation := Parallel.isSimulation hagree hnatives
    have hroot (d : Closure) (hd : d ∈ c :: args.flatMap Value.closures) :
        c.callRoots args d.frame := ⟨d, hd, rfl⟩
    have hrename (d : Closure) (hd : d ∈ c :: args.flatMap Value.closures) :
        d.rename (Renaming.after s.store t.store) = d := by
      rw [Closure.rename, Renaming.frame_after_of_lt _ _ (hagree.roots_made _ (hroot d hd)),
        Renaming.identity_after_of_lt _ _ (hmade d hd)]
    have harg {v : Value} (hv : v ∈ args) {d : Closure} (hd : d ∈ v.closures) :
        d ∈ c :: args.flatMap Value.closures :=
      List.mem_cons_of_mem c (List.mem_flatMap.2 ⟨v, hv, hd⟩)
    refine isolated_of_matches hagree hs ht
      (hsimulation.calls depth _ _ _ _ _ caller caller' ⟨?_, fun d hd => ?_⟩ ⟨?_, ?_⟩)
    · exact congrArg Value.function (hrename c List.mem_cons_self).symm
    · obtain rfl := List.mem_singleton.1 hd
      exact .inl (.root (hroot d List.mem_cons_self))
    · rw [← List.map_id args, List.map_map]
      refine List.map_congr_left fun v hv => ?_
      exact (Value.rename_eq_self _ v fun d hd => hrename d (harg hv hd)).symm
    · exact fun v hv d hd => .inl (.root (hroot d (harg hv hd)))

/-- A function that assigns to a name of its frame does not see that one store has a second frame
and that more functions were made in the other. -/
theorem isolated_setter :
    let c : Closure := ⟨0, "f", ["a"], [.expr (.assign (.name "x") (.name "a"))], 0⟩
    let frame : Frame := ⟨none, [("f", .function c), ("x", .null)], ["f"]⟩
    let s := State.ofStore ⟨#[frame, .empty none], 1⟩ none (.still ⟨0⟩)
    let t := State.ofStore ⟨#[frame], 4⟩ none (.still ⟨1000000000⟩)
    let host : Host := ⟨#[Builtin.print, Builtin.sqrt]⟩
    let p : Program := ⟨[.expr (.call (.name "f") [.number 2])]⟩
    Isolated (· = 0) s t (p.run host 2 0) (p.run host 2 0) ∧
      Isolated (c.callRoots [.number 2]) s t (Run.call host 2 (.function c) [.number 2] 1)
        (Run.call host 2 (.function c) [.number 2] 0) := by
  intro c frame s t host p
  have hwellFormed (frames : Array Frame) (n : Nat) (hframes : 0 < frames.size) (hn : 0 < n)
      (hmem : ∀ g ∈ frames, g.parent = none ∧ ∀ d ∈ g.closures, d = c) :
      Store.WellFormed ⟨frames, n⟩ := by
    refine ⟨fun f g p hg hp => ?_, fun f g hg d hd => ?_⟩
    · rw [(hmem g (Array.mem_of_getElem? hg)).1] at hp
      cases hp
    · rw [(hmem g (Array.mem_of_getElem? hg)).2 d hd]
      exact ⟨hframes, hn⟩
  have hempty : (Frame.empty none).closures = [] := rfl
  have hclosures : frame.closures = [c] := rfl
  have hs : s.store.WellFormed := by
    refine hwellFormed _ _ (by decide) (by decide) fun g hg => ?_
    obtain rfl | rfl : g = frame ∨ g = .empty none := by simpa using hg
    · exact ⟨rfl, by simp [hclosures]⟩
    · exact ⟨rfl, by simp [hempty]⟩
  have ht : t.store.WellFormed := by
    refine hwellFormed _ _ (by decide) (by decide) fun g hg => ?_
    obtain rfl : g = frame := by simpa using hg
    exact ⟨rfl, by simp [hclosures]⟩
  have hagree (roots : FrameId → Prop) (hroots : ∀ f, roots f → f = 0) :
      Store.AgreeFrom roots s.store t.store := by
    have hreach (f : FrameId) (hf : s.store.Reachable roots f) : f = 0 := by
      induction hf with
      | root hf => exact hroots _ hf
      | parent _ hframe hp ih =>
        subst ih
        obtain rfl := Option.some.inj hframe
        cases hp
      | captured _ hframe hc ih =>
        subst ih
        obtain rfl := Option.some.inj hframe
        exact congrArg Closure.frame (List.mem_singleton.1 hc)
    refine ⟨hs, ht, fun f hf => ?_, fun f hf => ?_⟩
    · rw [hroots f hf]
      decide
    · rw [hreach f hf]
      rfl
  have hroots (f : FrameId) (hf : c.callRoots [.number 2] f) : f = 0 := by
    obtain ⟨d, hd, rfl⟩ := hf
    obtain rfl : d = c := List.mem_singleton.1 hd
    rfl
  have hmain := @isolated_run_and_call host s t (by simp [host]) rfl rfl 2
  refine ⟨hmain.1 p 0 (hagree _ fun _ hf => hf), ?_⟩
  refine hmain.2 c [.number 2] 1 0 (hagree _ hroots) fun d hd => ?_
  obtain rfl : d = c := List.mem_singleton.1 hd
  decide

end ScopeScript
