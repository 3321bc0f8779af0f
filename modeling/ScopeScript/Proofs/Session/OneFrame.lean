import Mathlib
import ScopeScript.Proofs.Run.Simulation
import ScopeScript.Proofs.Store.Permanence
import ScopeScript.Proofs.Store.Renaming
import ScopeScript.Session

/-!
# One frame or two

A program can run in the global frame itself, or in the frame of a session below it.  As long as
it declares none of the global names at the top, it sees no difference: the names that it declares
stand in front of the global ones, in the same frame or in a frame of their own.
-/

namespace ScopeScript

namespace Builtin

/-- The names of the global frame. -/
def names : List String := globals.bindings.map (·.1)

theorem closures_of_mem_globals {b : String × Value} (hb : b ∈ globals.bindings) :
    b.2.closures = [] := by
  simp only [globals, List.mem_cons, List.not_mem_nil, or_false] at hb
  obtain rfl | rfl | rfl | rfl | rfl | rfl := hb
  all_goals rfl

/-- The names of the global frame are those that it marks as constants. -/
theorem isConstant_globals (x : String) : globals.isConstant x = globals.binds x := by
  rw [Bool.eq_iff_iff, Frame.binds_iff_mem]
  exact List.contains_iff_mem

theorem find?_globals_eq_none {x : String} (hx : x ∉ names) : globals.find? x = none := by
  refine Option.not_isSome_iff_eq_none.1 fun hbinds => hx ?_
  exact (globals.binds_iff_mem x).1 hbinds

theorem isConstant_of_find?_globals {x : String} {b : Binding} (h : globals.find? x = some b) :
    b.constant = true := by
  rw [Frame.constant_eq_of_find? h, isConstant_globals, Frame.binds, h]
  rfl

end Builtin

/-! ## Names in front of the global ones -/

/-- The global frame with the names and marks of another one in front. -/
def Frame.merged (own : Frame) : Frame :=
  ⟨none, own.bindings ++ Builtin.globals.bindings, own.constants ++ Builtin.globals.constants⟩

/-- The frame with the same names below the global frame, where each frame has the next number. -/
def Renaming.below : Renaming := ⟨fun f => f + 1, id⟩

/-- The frame below the global one with the names that stand in front of the global ones. -/
def Frame.session (own : Frame) : Frame :=
  { own.rename .below with parent := some Session.globals }

namespace Frame

variable {own : Frame} {x : String}

theorem isConstant_merged (own : Frame) (x : String) :
    (merged own).isConstant x = (own.isConstant x || Builtin.globals.isConstant x) := by
  simp [isConstant, merged]

theorem find?_merged (hown : ∀ y, own.binds y = true → y ∉ Builtin.names) (x : String) :
    (merged own).find? x = (own.find? x).or (Builtin.globals.find? x) := by
  have hlookup : (merged own).bindings.lookup x =
      (own.bindings.lookup x).or (Builtin.globals.bindings.lookup x) := List.lookup_append
  rw [find?, hlookup, isConstant_merged]
  cases hb : own.find? x with
  | some b =>
    have hglobals : Builtin.globals.find? x = none :=
      Builtin.find?_globals_eq_none (hown x (by rw [binds, hb]; rfl))
    obtain ⟨v, hv, rfl⟩ := Option.map_eq_some_iff.1 hb
    simp [hv, Builtin.isConstant_globals, binds, hglobals]
  | none =>
    rw [Option.none_or, Option.map_eq_none_iff.1 hb, Option.none_or]
    cases hg : Builtin.globals.find? x with
    | none => rw [Option.map_eq_none_iff.1 hg, Option.map_none]
    | some b =>
      have hconstant := Builtin.isConstant_of_find?_globals hg
      obtain ⟨v, hv, rfl⟩ := Option.map_eq_some_iff.1 hg
      have hconstant : Builtin.globals.isConstant x = true := hconstant
      simp [hv, hconstant]

theorem find?_session (own : Frame) (x : String) :
    (session own).find? x = (own.find? x).map (Binding.rename .below) :=
  own.find?_rename .below x

theorem closures_merged (own : Frame) : (merged own).closures = own.closures := by
  have hglobals : Builtin.globals.bindings.flatMap (fun b => b.2.closures) = [] :=
    List.flatMap_eq_nil_iff.2 fun b hb => Builtin.closures_of_mem_globals hb
  rw [closures, merged, List.flatMap_append, hglobals, List.append_nil, closures]

theorem set_merged (hx : x ∉ Builtin.names) (v : Value) :
    (merged own).set x v = merged (own.set x v) := by
  have hglobals : (Builtin.globals.bindings.map fun b => if b.1 == x then (b.1, v) else b) =
      Builtin.globals.bindings := by
    refine (List.map_congr_left fun b hb => ?_).trans (List.map_id _)
    have hne : b.1 ≠ x := fun heq => hx (List.mem_map.2 ⟨b, hb, heq⟩)
    simp [hne]
  simp only [set, merged, List.map_append, hglobals]

theorem add_merged (b : Binding) : (merged own).add b = merged (own.add b) := by
  unfold add merged
  split <;> rfl

theorem set_session (v : Value) :
    (session own).set x (v.rename .below) = session (own.set x v) := by
  rw [session, session, ← set_rename]
  rfl

theorem add_session (b : Binding) :
    (session own).add (b.rename .below) = session (own.add b) := rfl

end Frame

/-! ## Two runs of one program -/

variable {s t : State}

/-- The first run has the global names and those of the program in one frame, the second in two. -/
structure Merged (s t : State) : Prop where
  left : s.store.Parented
  right : t.store.Parented
  size : t.store.frames.size = s.store.frames.size + 1
  closures : t.store.closures = s.store.closures
  top : ∃ own, s.store.frames[0]? = some (.merged own) ∧
    t.store.frames[Session.top]? = some (.session own) ∧ ∀ x, own.binds x = true → x ∉ Builtin.names
  globals : t.store.frames[Session.globals]? = some Builtin.globals
  others : ∀ f ≠ 0, ∀ frame, s.store.frames[f]? = some frame →
    t.store.frames[f + 1]? = some (frame.rename .below)
  made : ∀ (f : FrameId) (frame : Frame), s.store.frames[f]? = some frame →
    ∀ c ∈ frame.closures, c.frame < s.store.frames.size
  sink : t.sink = s.sink
  events : t.events = s.events
  clock : t.clock = s.clock

/-- The coupling of a run in the global frame with one below it. -/
def Merged.coupling : Coupling where
  numbers := .below
  Rel := Merged
  Seen n f := f < n
  MayDeclare f x := f = 0 → x ∉ Builtin.names

namespace Merged

theorem eq_globals {f : FrameId} {frame : Frame} (h : Builtin.store.frames[f]? = some frame) :
    f = 0 ∧ frame = .merged (.empty none) := by
  obtain ⟨hlt, heq⟩ := Array.getElem?_eq_some_iff.1 h
  have hf : f = 0 := Nat.lt_one_iff.1 hlt
  subst hf
  exact ⟨rfl, heq.symm⟩

theorem parented_store : Builtin.store.Parented := by
  intro f frame parent hf hp
  obtain ⟨-, rfl⟩ := eq_globals hf
  cases hp

theorem start (limit : Option Nat) (clock : Clock) :
    Merged (.ofStore Builtin.store limit clock) (Session.new limit clock).state where
  left := parented_store
  right := parented_store.newFrame (by decide)
  size := rfl
  closures := rfl
  top := ⟨.empty none, rfl, rfl, fun x hx => nomatch hx⟩
  globals := rfl
  others f hf frame hframe := absurd (eq_globals hframe).1 hf
  made f frame hframe c hc := by
    obtain ⟨-, rfl⟩ := eq_globals hframe
    rw [Frame.closures_merged] at hc
    nomatch hc
  sink := rfl
  events := rfl
  clock := rfl

/-! ### Changes of the stores -/

/-- Replacing a frame other than the top one, in both stores. -/
theorem put (h : Merged s t) {f : FrameId} {old new : Frame} (hf : f ≠ 0)
    (hold : s.store.frames[f]? = some old) (hparent : new.parent = old.parent)
    (hnew : ∀ c ∈ new.closures, c.frame < s.store.frames.size) :
    Merged { s with store := s.store.put f new }
      { t with store := t.store.put (f + 1) (new.rename .below) } := by
  have hright := h.others f hf old hold
  have hlt := Store.lt_size_of_getElem? hold
  obtain ⟨own, htop, htop', hown⟩ := h.top
  have hne : f + 1 ≠ Session.top := fun heq => hf (Nat.succ.inj heq)
  refine { h with
    left := h.left.put hold hparent
    right := h.right.put hright (by rw [Frame.parent_rename, Frame.parent_rename, hparent])
    size := by rw [Store.size_put, Store.size_put, h.size]
    closures := h.closures
    top := ⟨own, ?_, ?_, hown⟩
    globals := ?_
    others := fun g hg frame hframe => ?_
    made := fun g frame hframe c hc => ?_ }
  · exact (Store.getElem?_put_of_ne hf new).trans htop
  · exact (Store.getElem?_put_of_ne hne _).trans htop'
  · exact (Store.getElem?_put_of_ne (Nat.succ_ne_zero f) _).trans h.globals
  · obtain ⟨rfl, rfl⟩ | ⟨hfg, hframe⟩ := Store.cases_of_getElem?_put hlt hframe
    · exact Store.getElem?_put_self (Store.lt_size_of_getElem? hright) _
    · have hne' : f + 1 ≠ g + 1 := fun heq => hfg (Nat.succ.inj heq)
      exact (Store.getElem?_put_of_ne hne' _).trans (h.others g hg frame hframe)
  · rw [Store.size_put]
    obtain ⟨rfl, rfl⟩ | ⟨-, hframe⟩ := Store.cases_of_getElem?_put hlt hframe
    · exact hnew c hc
    · exact h.made g frame hframe c hc

/-- Replacing the names that the program has at the top, in both stores. -/
theorem put_top (h : Merged s t) (own : Frame) (hown : ∀ x, own.binds x = true → x ∉ Builtin.names)
    (hnew : ∀ c ∈ (Frame.merged own).closures, c.frame < s.store.frames.size) :
    Merged { s with store := s.store.put 0 (.merged own) }
      { t with store := t.store.put Session.top (.session own) } := by
  obtain ⟨old, htop, htop', -⟩ := h.top
  refine { h with
    left := h.left.put htop rfl
    right := h.right.put htop' rfl
    size := by rw [Store.size_put, Store.size_put, h.size]
    closures := h.closures
    top := ⟨own, ?_, ?_, hown⟩
    globals := ?_
    others := fun g hg frame hframe => ?_
    made := fun g frame hframe c hc => ?_ }
  · exact Store.getElem?_put_self (Store.lt_size_of_getElem? htop) _
  · exact Store.getElem?_put_self (Store.lt_size_of_getElem? htop') _
  · exact (Store.getElem?_put_of_ne (by decide) _).trans h.globals
  · rw [Store.getElem?_put_of_ne hg.symm] at hframe
    have hne : Session.top ≠ g + 1 := fun heq => hg (Nat.succ.inj heq).symm
    exact (Store.getElem?_put_of_ne hne _).trans (h.others g hg frame hframe)
  · rw [Store.size_put]
    have hlt := Store.lt_size_of_getElem? htop
    obtain ⟨rfl, rfl⟩ | ⟨-, hframe⟩ := Store.cases_of_getElem?_put hlt hframe
    · exact hnew c hc
    · exact h.made g frame hframe c hc

/-- Making a frame below one that was made, in both stores. -/
theorem newFrame (h : Merged s t) {p : FrameId} (hp : p < s.store.frames.size) :
    Merged { s with store := (s.store.newFrame (some p)).2 }
      { t with store := (t.store.newFrame (some (p + 1))).2 } := by
  obtain ⟨own, htop, htop', hown⟩ := h.top
  have hp' : p + 1 < t.store.frames.size := by
    rw [h.size]
    exact Nat.succ_lt_succ hp
  refine { h with
    left := h.left.newFrame hp
    right := h.right.newFrame hp'
    size := by rw [Store.size_newFrame, Store.size_newFrame, h.size]
    closures := h.closures
    top := ⟨own, Store.getElem?_newFrame_of_eq_some htop _,
      Store.getElem?_newFrame_of_eq_some htop' _, hown⟩
    globals := Store.getElem?_newFrame_of_eq_some h.globals _
    others := fun g hg frame hframe => ?_
    made := fun g frame hframe c hc => ?_ }
  · obtain hold | ⟨rfl, rfl⟩ := Store.cases_of_getElem?_newFrame hframe
    · exact Store.getElem?_newFrame_of_eq_some (h.others g hg frame hold) _
    · rw [← h.size]
      exact Store.getElem?_newFrame_size _ _
  · rw [Store.size_newFrame]
    obtain hold | ⟨-, rfl⟩ := Store.cases_of_getElem?_newFrame hframe
    · exact Nat.lt_succ_of_lt (h.made g frame hold c hc)
    · simp [Frame.closures, Frame.empty] at hc

/-! ### Operations -/

theorem values_of_find?_globals {x : String} {b : Binding} (hb : Builtin.globals.find? x = some b)
    (n : Nat) : coupling.Values n b.value b.value := by
  have hclosures := Builtin.closures_of_mem_globals (Frame.mem_of_find? hb)
  refine ⟨(Value.rename_eq_self _ _ fun c hc => ?_).symm, fun c hc => ?_⟩
  · simp [hclosures] at hc
  · simp [hclosures] at hc

theorem lookup_top (h : Merged s t) (x : String) :
    Coupling.Alike (coupling.Values s.store.frames.size) (s.store.lookup 0 x)
      (t.store.lookup Session.top x) := by
  obtain ⟨own, htop, htop', hown⟩ := h.top
  rw [Store.lookup_eq h.left htop, Store.lookup_eq h.right htop', Frame.find?_merged hown,
    Frame.find?_session]
  cases hb : own.find? x with
  | some b =>
    refine .ok ⟨rfl, fun c hc => h.made 0 _ htop c ?_⟩
    rw [Frame.closures_merged]
    exact own.closures_of_find? hb hc
  | none =>
    -- The first run goes on in the same frame, the second in its parent.
    simp only [Option.none_or, Option.map_none, Frame.session, Frame.merged]
    rw [Store.lookup_eq h.right h.globals]
    cases hg : Builtin.globals.find? x with
    | some b => exact .ok (values_of_find?_globals hg _)
    | none => exact .fault _

theorem lookup (h : Merged s t) (x : String) (f : FrameId) (hf : f < s.store.frames.size) :
    Coupling.Alike (coupling.Values s.store.frames.size) (s.store.lookup f x)
      (t.store.lookup (f + 1) x) := by
  induction f using Nat.strongRecOn with
  | ind f ih =>
    by_cases hzero : f = 0
    · subst hzero
      exact h.lookup_top x
    have hframe := Array.getElem?_eq_getElem hf
    have hframe' := h.others f hzero _ hframe
    rw [Store.lookup_eq h.left hframe, Store.lookup_eq h.right hframe', Frame.find?_rename]
    cases hb : s.store.frames[f].find? x with
    | some b =>
      exact .ok ⟨rfl, fun c hc => h.made f _ hframe c (Frame.closures_of_find? _ hb hc)⟩
    | none =>
      rw [Frame.parent_rename]
      cases hp : s.store.frames[f].parent with
      | none => exact .fault _
      | some p =>
        have hlt := h.left f _ p hframe hp
        exact ih p hlt (Nat.lt_trans hlt hf)

/-- The states that an assignment or a declaration leads to belong together. -/
abbrev Changed (s t : State) (store store' : Store) : Prop :=
  Merged { s with store := store } { t with store := store' } ∧
    s.store.frames.size ≤ store.frames.size

theorem assign_top (h : Merged s t) (x : String) {v : Value}
    (hv : ∀ c ∈ v.closures, c.frame < s.store.frames.size) :
    Coupling.Alike (Changed s t) (s.store.assign 0 x v)
      (t.store.assign Session.top x (v.rename .below)) := by
  obtain ⟨own, htop, htop', hown⟩ := h.top
  rw [Store.assign_eq h.left htop, Store.assign_eq h.right htop', Frame.find?_merged hown,
    Frame.find?_session]
  cases hb : own.find? x with
  | some b =>
    have hx : x ∉ Builtin.names := hown x (by rw [Frame.binds, hb]; rfl)
    simp only [Option.some_or, Option.map_some, Binding.rename]
    split
    · exact .fault _
    · rw [Frame.set_merged hx, Frame.set_session]
      refine .ok ⟨h.put_top _ (fun y hy => ?_) fun c hc => ?_,
        Nat.le_of_eq (Store.size_put _ _ _).symm⟩
      · exact hown y (Frame.binds_set own x v y ▸ hy)
      · rw [← Frame.set_merged hx] at hc
        obtain hc | hc := List.mem_append.1 (Frame.closures_set _ x v hc)
        · exact hv c hc
        · exact h.made 0 _ htop c hc
  | none =>
    simp only [Option.none_or, Option.map_none, Frame.session, Frame.merged]
    rw [Store.assign_eq h.right h.globals]
    cases hg : Builtin.globals.find? x with
    | some b =>
      -- Every global name is a constant, so neither run assigns to it.
      have hconstant := Builtin.isConstant_of_find?_globals hg
      simp only [hconstant, if_true]
      exact .fault _
    | none => exact .fault _

theorem assign (h : Merged s t) (x : String) {v : Value}
    (hv : ∀ c ∈ v.closures, c.frame < s.store.frames.size) (f : FrameId)
    (hf : f < s.store.frames.size) :
    Coupling.Alike (Changed s t) (s.store.assign f x v)
      (t.store.assign (f + 1) x (v.rename .below)) := by
  induction f using Nat.strongRecOn with
  | ind f ih =>
    by_cases hzero : f = 0
    · subst hzero
      exact h.assign_top x hv
    have hframe := Array.getElem?_eq_getElem hf
    have hframe' := h.others f hzero _ hframe
    rw [Store.assign_eq h.left hframe, Store.assign_eq h.right hframe', Frame.find?_rename]
    cases hb : s.store.frames[f].find? x with
    | some b =>
      have hset (c : Closure) (hc : c ∈ (s.store.frames[f].set x v).closures) :
          c.frame < s.store.frames.size := by
        obtain hc | hc := List.mem_append.1 (Frame.closures_set _ x v hc)
        · exact hv c hc
        · exact h.made f _ hframe c hc
      simp only [Option.map_some, Binding.rename]
      split
      · exact .fault _
      · rw [Frame.set_rename]
        exact .ok ⟨h.put hzero hframe (Frame.parent_set _ x v) hset,
          Nat.le_of_eq (Store.size_put _ _ _).symm⟩
    | none =>
      rw [Frame.parent_rename]
      cases hp : s.store.frames[f].parent with
      | none => exact .fault _
      | some p =>
        have hlt := h.left f _ p hframe hp
        exact ih p hlt (Nat.lt_trans hlt hf)

theorem declare_top (h : Merged s t) {x : String} (hx : x ∉ Builtin.names) (constant : Bool)
    {v : Value} (hv : ∀ c ∈ v.closures, c.frame < s.store.frames.size) :
    Coupling.Alike (Changed s t) (s.store.declare 0 x v constant)
      (t.store.declare Session.top x (v.rename .below) constant) := by
  obtain ⟨own, htop, htop', hown⟩ := h.top
  rw [Store.declare_eq htop, Store.declare_eq htop', Frame.find?_merged hown, Frame.find?_session,
    Builtin.find?_globals_eq_none hx]
  cases hb : own.find? x with
  | some b => exact .fault _
  | none =>
    have hput := h.put_top (own.add ⟨x, v, constant⟩) (fun y hy => ?_) fun c hc => ?_
    · rw [← Frame.add_merged, ← Frame.add_session] at hput
      exact .ok ⟨hput, Nat.le_of_eq (Store.size_put _ _ _).symm⟩
    · obtain rfl | hy := (own.binds_add ⟨x, v, constant⟩ y).1 hy
      · exact hx
      · exact hown y hy
    · rw [Frame.closures_merged, Frame.closures_add, ← Frame.closures_merged] at hc
      obtain hc | hc := List.mem_append.1 hc
      · exact hv c hc
      · exact h.made 0 _ htop c hc

theorem declare (h : Merged s t) {x : String} (constant : Bool) {v : Value}
    (hv : ∀ c ∈ v.closures, c.frame < s.store.frames.size) {f : FrameId}
    (hf : f < s.store.frames.size) (hx : f = 0 → x ∉ Builtin.names) :
    Coupling.Alike (Changed s t) (s.store.declare f x v constant)
      (t.store.declare (f + 1) x (v.rename .below) constant) := by
  by_cases hzero : f = 0
  · subst hzero
    exact h.declare_top (hx rfl) constant hv
  have hframe := Array.getElem?_eq_getElem hf
  rw [Store.declare_eq hframe, Store.declare_eq (h.others f hzero _ hframe), Frame.find?_rename]
  cases hb : s.store.frames[f].find? x with
  | some b => exact .fault _
  | none =>
    have hadd (c : Closure) (hc : c ∈ (s.store.frames[f].add ⟨x, v, constant⟩).closures) :
        c.frame < s.store.frames.size := by
      rw [Frame.closures_add] at hc
      obtain hc | hc := List.mem_append.1 hc
      · exact hv c hc
      · exact h.made f _ hframe c hc
    exact .ok ⟨h.put hzero hframe (Frame.parent_add _ _) hadd,
      Nat.le_of_eq (Store.size_put _ _ _).symm⟩

theorem write_matches (n : Nat) (text : String) :
    coupling.Matches n (fun _ _ _ => True) (Run.write text) (Run.write text) := by
  intro s t (h : Merged s t) hn
  rw [Run.write_apply, Run.write_apply, h.sink]
  have hsink : Merged { s with sink := (s.sink.write text.toUTF8.data).2 }
      { t with sink := (s.sink.write text.toUTF8.data).2 } := { h with sink := rfl }
  cases (s.sink.write text.toUTF8.data).1 with
  | true => exact .ok hsink hn trivial
  | false => exact Coupling.Matches.fail .sinkFull _ _ hsink hn

/-- A run in the global frame and one below it do the same. -/
theorem isSimulation : coupling.IsSimulation Builtin.host where
  seen_mono hf hn := Nat.lt_of_lt_of_le hf hn
  lookup hf x := Coupling.Matches.lookup fun s t (h : Merged s t) hn =>
    h.lookup x _ (Nat.lt_of_lt_of_le hf hn)
  assign {n f v w} hf hvw x := by
    obtain ⟨rfl, hseen⟩ := hvw
    refine Coupling.Matches.assign (fun s t (h : Merged s t) hn => ?_) fun k hk => ⟨rfl, ?_⟩
    · exact h.assign x (fun c hc => Nat.lt_of_lt_of_le (hseen c hc) hn) f
        (Nat.lt_of_lt_of_le hf hn)
    · exact fun c hc => Nat.lt_of_lt_of_le (hseen c hc) hk
  declare {n f v w x} hf hx hvw constant := by
    obtain ⟨rfl, hseen⟩ := hvw
    refine Coupling.Matches.declare (fun s t (h : Merged s t) hn => ?_) fun k hk => ⟨rfl, ?_⟩
    · exact h.declare constant (fun c hc => Nat.lt_of_lt_of_le (hseen c hc) hn)
        (Nat.lt_of_lt_of_le hf hn) hx
    · exact fun c hc => Nat.lt_of_lt_of_le (hseen c hc) hk
  newFrame {n f} hf := by
    intro s t (h : Merged s t) hn
    have hsize := Store.size_newFrame s.store (some f)
    refine .ok (h.newFrame (Nat.lt_of_lt_of_le hf hn)) ?_ ⟨h.size, ?_, fun x hzero => ?_⟩
    · exact Nat.le_trans hn (hsize ▸ Nat.le_succ _)
    · exact hsize ▸ Nat.lt_succ_self _
    · have hpos : f < s.store.frames.size := Nat.lt_of_lt_of_le hf hn
      exact absurd hzero (Nat.ne_of_gt (Nat.lt_of_le_of_lt (Nat.zero_le f) hpos))
  newClosure n := by
    intro s t (h : Merged s t) hn
    have hnext : Merged { s with store := s.store.newClosure.2 }
        { t with store := t.store.newClosure.2 } :=
      { h with closures := congrArg Nat.succ h.closures }
    exact .ok hnext hn h.closures
  emit n e := fun s t (h : Merged s t) hn =>
    .ok { h with events := congrArg (Array.push · e) h.events } hn trivial
  native {n args args'} hargs m frame frame' := by
    refine Coupling.action_matches (write_matches n) (fun act hact => ?_) hargs m frame frame'
    simp only [Builtin.host, List.mem_toArray, List.mem_cons, List.not_mem_nil, or_false] at hact
    obtain rfl | rfl | rfl := hact
    · exact .inl rfl
    · exact .inr (.inr ⟨rfl, fun s t (h : Merged s t) =>
        ⟨h.clock, { h with clock := congrArg Clock.tick h.clock }⟩⟩)
    · exact .inr (.inl rfl)

end Merged

/-! ## Direct runs and sessions -/

/-- What can be seen of a run. -/
structure Report where
  outcome : Except Halt Value
  sink : Sink
  events : Array Event

/-- The report of a run that starts in a state. -/
def Run.report (m : Run Value) (s : State) : Report :=
  ⟨m.outcome s, (m.final s).sink, (m.final s).events⟩

/-- The report of a program that runs in the global frame of a store that holds nothing else. -/
def Program.direct (p : Program) (depth : Nat) (limit : Option Nat) (clock : Clock) : Report :=
  (p.run Builtin.host depth Session.globals).report (.ofStore Builtin.store limit clock)

theorem Session.perform_eq {α : Type} (s : Session) (m : Run α) :
    s.perform m = (m.outcome s.state, { s with state := m.final s.state }) := by
  unfold Session.perform Run.outcome Run.final
  cases m s.state with
  | ok a state => rfl
  | error h state => rfl

/-- A new session runs a program that declares no global name at the top as it runs in the global
frame itself, with the same end, the same output and the same events.  Unless the run depends on
what the clock shows, the two clocks may differ. -/
theorem Session.run_eq_direct {p : Program} {depth : Nat} {limit : Option Nat}
    {clock clock' : Clock} (hnames : ∀ x ∈ declaredNames p.body, x ∉ Builtin.names)
    (hclock : p.direct depth limit clock = p.direct depth limit clock') :
    let run := (Session.new limit clock').run depth p
    run.1 = (p.direct depth limit clock).outcome.map (Value.rename .below) ∧
      (∀ f, run.1 ≠ .error (.missingFrame f)) ∧
      run.2.state.sink = (p.direct depth limit clock).sink ∧
      run.2.state.events = (p.direct depth limit clock).events := by
  intro run
  have hmatches : Merged.coupling.Matches 1 Merged.coupling.Values
      (p.run Builtin.host depth Session.globals) (p.run Builtin.host depth Session.top) :=
    Merged.isSimulation.program depth p (Nat.zero_lt_one) fun x hx _ => hnames x hx
  obtain ⟨houtcome, hmissing, hfinal, -⟩ :=
    hmatches.outcome (Merged.start limit clock') (Nat.le_refl _)
  have hfinal : Merged _ _ := hfinal
  have hrun : run = _ := Session.perform_eq _ _
  rw [hclock, hrun]
  refine ⟨houtcome, fun f hf => ?_, hfinal.sink, hfinal.events⟩
  have herror := houtcome.symm.trans hf
  cases hend : (p.run Builtin.host depth globals).outcome
    (.ofStore Builtin.store limit clock') with
  | ok v =>
    rw [hend] at herror
    cases herror
  | error h =>
    rw [hend] at herror
    exact hmissing f (hend.trans herror)

/-- A parameter and a name in a body may be called like global ones, and the clock may show anything
when it is not read. -/
theorem Session.run_eq_direct_shadowing :
    let p : Program := ⟨[.define "pick" ["print"]
        [.declare true "sqrt" (some (.name "print")), .expr (.name "sqrt")],
      .expr (.call (.name "print") [.call (.name "pick") [.name "true"]])]⟩
    let now := Clock.still ⟨0⟩
    let later := Clock.still ⟨1000000000⟩
    let run := (Session.new (some 3) later).run 2 p
    run.1 = (p.direct 2 (some 3) now).outcome.map (Value.rename .below) ∧
      run.2.state.sink = (p.direct 2 (some 3) now).sink := by
  intro p now later
  have hclock : p.direct 2 (some 3) now = p.direct 2 (some 3) later := by cbv
  obtain ⟨houtcome, -, hsink, -⟩ := Session.run_eq_direct (by decide) hclock
  exact ⟨houtcome, hsink⟩

end ScopeScript
