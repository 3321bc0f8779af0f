import ScopeScript.Proofs.Run.Moment
import ScopeScript.Proofs.Run.Room

/-!
# References to frames

A frame refers to its parent, and a function to the frame that it captured.  Frames are never taken
away, so what a reference leads to stays there.  A store that came about by operations of the host
and by evaluations has no reference to a frame that was not made, and no evaluation meets one.
-/

namespace ScopeScript

/-- The functions that a call is about. -/
def Code.closures : Code → List Closure
  | .expr _ | .stmt _ | .body _ => []
  | .call callee arguments => callee.closures ++ arguments.flatMap Value.closures

/-- The functions in the result of the evaluation; there are none if it halts. -/
def Moment.received (host : Host) (m : Moment) : List Closure :=
  match (m.run host).outcome m.state with
  | .ok v => v.closures
  | .error _ => []

namespace Store

/-- Stores that come about by operations of the host and by evaluations, however they end, and the
functions that the host has then.  It has those in the results, and may make some itself.  It works
with frames that were made, and the values that it declares, assigns or passes, and those that its
natives hand on, are made of the functions that it has. -/
inductive Built : Store → List Closure → Prop
  | empty : Built .empty []
  | newFrame {s : State} {held : List Closure} (h : Built s.store held) {parent : Option FrameId}
      (hparent : ∀ p ∈ parent, p < s.store.frames.size) :
      Built ((Run.newFrame parent).final s).store held
  | function {s : Store} {held : List Closure} (h : Built s held) {c : Closure}
      (hc : c.frame < s.frames.size) : Built s (c :: held)
  | declare {s : State} {held : List Closure} (h : Built s.store held) {f : FrameId}
      (hf : f < s.store.frames.size) (x : String) {v : Value} (hv : v.closures ⊆ held)
      (constant : Bool) : Built ((Run.declare f x v constant).final s).store held
  | assign {s : State} {held : List Closure} (h : Built s.store held) {f : FrameId}
      (hf : f < s.store.frames.size) (x : String) {v : Value} (hv : v.closures ⊆ held) :
      Built ((Run.assign f x v).final s).store held
  | evaluate {m : Moment} {held : List Closure} (h : Built m.state.store held) {host : Host}
      (hhost : host.ForwardingWith held) (hf : m.frame < m.state.store.frames.size)
      (hcode : m.code.closures ⊆ held) :
      Built ((m.run host).final m.state).store (m.received host ++ held)

/-- Parents are frames that were made, earlier than their children, and so are the frames that the
functions in the store and the given ones captured. -/
structure Linked (s : Store) (known : List Closure) : Prop where
  parents : ∀ (f : FrameId) (frame : Frame) (parent : FrameId), s.frames[f]? = some frame →
    frame.parent = some parent → parent < f ∧ parent < s.frames.size
  captured : ∀ c, s.Has c ∨ c ∈ known → c.frame < s.frames.size

theorem Roomy.linked {s : Store} {known : List Closure} (hs : s.Roomy none)
    (hknown : ∀ c ∈ known, s.Fits none c) : s.Linked known where
  parents f frame parent hframe hparent := by
    have hlt := hs.parented f frame parent hframe hparent
    exact ⟨hlt, Nat.lt_trans hlt (lt_size_of_getElem? hframe)⟩
  captured c hc := (hc.elim (hs.functions c) (hknown c)).lt

end Store

namespace Moment

variable {host : Host} {m : Moment} {held : List Closure}

/-- What is evaluated in a frame that was made, with functions that are there, may be evaluated. -/
theorem ready_of_closures (hs : (Contract.roomy none held).store m.state.store)
    (hf : m.frame < m.state.store.frames.size) (hcode : m.code.closures ⊆ held) :
    m.Ready (.roomy none held) := by
  obtain ⟨d, f, code, st⟩ := m
  have hroom (n : Nat) : st.store.HasRoom none f n := (Store.hasRoom_none_iff hs.1.parented).2 hf
  refine ⟨hs, hf, ?_⟩
  cases code with
  | expr e => trivial
  | stmt stmt => exact hroom _
  | body stmts => exact fun stmt _ => hroom _
  | call callee arguments =>
    refine ⟨fun c hc => hs.2 c (hcode (List.mem_append_left _ hc)), fun v hv c hc => ?_⟩
    exact hs.2 c (hcode (List.mem_append_right _ (List.mem_flatMap.2 ⟨v, hv, hc⟩)))

theorem Ready.fits_closures (h : m.Ready (.roomy none held)) :
    ∀ c ∈ m.code.closures, m.state.store.Fits none c := by
  obtain ⟨d, f, code, st⟩ := m
  have hallowed := h.allowed
  intro c hc
  cases code with
  | expr | stmt | body => cases hc
  | call callee arguments =>
    obtain hc | hc := List.mem_append.1 hc
    · exact hallowed.1 c hc
    · obtain ⟨v, hv, hc⟩ := List.mem_flatMap.1 hc
      exact hallowed.2 v hv c hc

theorem Ready.fits_received (h : m.Ready (.roomy none held)) (hhost : host.ForwardingWith held) :
    ∀ c ∈ m.received host, ((m.run host).final m.state).store.Fits none c := by
  have hends := h.ends (Contract.isKept_roomy hhost none)
  intro c hc
  unfold received at hc
  cases hv : (m.run host).outcome m.state with
  | ok v =>
    rw [hv] at hc
    exact hends.value v hv c hc
  | error e =>
    rw [hv] at hc
    cases hc

end Moment

namespace Store

variable {s : Store} {held : List Closure}

theorem roomy_empty : empty.Roomy none where
  parented f frame parent hframe _ := by simp [empty] at hframe
  frames f hf := absurd hf (Nat.not_lt_zero f)
  functions := by
    rintro c ⟨f, frame, hframe, -⟩
    simp [empty] at hframe

/-- There is room for everything in such a store, if there is no limit. -/
theorem Built.roomy (h : s.Built held) : (Contract.roomy none held).store s := by
  have hlaws (held : List Closure) := Contract.isLawful_roomy none held
  have hvalue {s : Store} {held : List Closure} {v : Value}
      (hs : (Contract.roomy none held).store s) (hv : v.closures ⊆ held) :
      (Contract.roomy none held).value s v := fun c hc => hs.2 c (hv hc)
  induction h with
  | empty => exact ⟨roomy_empty, nofun⟩
  | @newFrame s held _ parent hparent ih =>
    obtain ⟨hroomy, hheld⟩ := ih
    have hparented := hroomy.parented.newFrame_of hparent
    have hnew : (s.store.newFrame parent).2.HasRoom none s.store.frames.size 0 :=
      (hasRoom_none_iff hparented).2 (by rw [size_newFrame]; exact Nat.lt_succ_self _)
    exact ⟨hroomy.newFrame_of hparent hnew,
      fun c hc => (keeps_newFrame s.store parent).hasRoom (hheld c hc)⟩
  | @function s held _ c hc ih =>
    have hfits : s.Fits none c := (hasRoom_none_iff ih.1.parented).2 hc
    exact ⟨ih.1, List.forall_mem_cons.2 ⟨hfits, ih.2⟩⟩
  | @declare s held _ f hf x v hv constant ih =>
    exact ((hlaws held).declare_ends ih hf (hvalue ih hv) x constant).store
  | @assign s held _ f hf x v hv ih =>
    exact ((hlaws held).assign_ends ih hf (hvalue ih hv) x).store
  | @evaluate m held _ host hhost hf hcode ih =>
    have hready := Moment.ready_of_closures ih hf hcode
    have hlast := (hready.ends (Contract.isKept_roomy hhost none)).store
    exact ⟨hlast.1, List.forall_mem_append.2 ⟨hready.fits_received hhost, hlast.2⟩⟩

/-- In a store that came about by operations of the host and by evaluations all references lead to
frames that were made, and those to parents to earlier ones.  So from each frame every name is
resolved, or found to be unknown, by going through no more frames than there are.  The references
in code that is evaluated there, at every moment of the evaluation, and those in what it leaves and
in its result also lead to such frames, and none of it ends for want of a frame. -/
theorem references_lead_to_frames (h : s.Built held) :
    s.Linked held ∧
      (∀ f < s.frames.size, ∃ chain, s.Ancestry f chain ∧ chain.length ≤ s.frames.size ∧
        ∀ x, ((∃ owner ∈ chain, s.resolve f x = .ok owner) ∨
            s.resolve f x = .error (.fault (.unknownVariable x))) ∧
          ∀ n, chain.length ≤ n → s.resolveWithin x n f = s.resolve f x) ∧
      ∀ (host : Host) (m m' : Moment), m.state.store = s → host.ForwardingWith held →
        m.frame < s.frames.size → m.code.closures ⊆ held →
        Relation.ReflTransGen (Moment.Next host) m m' →
          m'.frame < m'.state.store.frames.size ∧
          m'.state.store.Linked (m'.code.closures ++ held) ∧
          ((m'.run host).final m'.state).store.Linked (m'.received host ++ held) ∧
          ∀ g, (m'.run host).outcome m'.state ≠ .error (.missingFrame g) := by
  have hroomy := h.roomy
  have hs := hroomy.1.parented
  refine ⟨hroomy.1.linked hroomy.2, fun f hf => ?_, ?_⟩
  · obtain ⟨chain, hchain⟩ := exists_ancestry hs hf
    have hlength : chain.length ≤ s.frames.size := Nat.le_trans (hchain.length_le hs) hf
    refine ⟨chain, hchain, hlength, fun x => ⟨?_, fun n hn => ?_⟩⟩
    · cases hx : s.resolve f x with
      | ok owner =>
        obtain ⟨⟨nearer, farther, rfl, -⟩, -⟩ := (resolve_eq_ok_iff hs hchain).1 hx
        exact .inl ⟨owner, by simp, rfl⟩
      | error e => exact .inr (congrArg Except.error (unknown_of_resolve hs hf hx))
    · exact hchain.resolveWithin_eq x hn hlength
  · rintro host m m' rfl hhost hf hcode hinside
    have hkept := Contract.isKept_roomy hhost none
    have hready := (Moment.ready_of_closures hroomy hf hcode).inside hkept hinside
    have hends := hready.ends hkept
    refine ⟨hready.frame, hready.store.1.linked ?_, hends.store.1.linked ?_, fun g hg => ?_⟩
    · exact List.forall_mem_append.2 ⟨hready.fits_closures, hready.store.2⟩
    · exact List.forall_mem_append.2 ⟨hready.fits_received hhost, hends.store.2⟩
    · exact hends.halt _ hg g rfl

/-- A function that the host has from an evaluation, declared by it in an object, and called. -/
theorem references_lead_to_frames_received :
    let c : Closure := ⟨0, "f", [], [], 1⟩
    let start : State := .ofStore ((empty.newFrame none).2.newFrame (some 0)).2 none (.still ⟨0⟩)
    let define : Moment := ⟨0, 1, .stmt (.define "f" [] []), start⟩
    let t := (Run.declare 0 "o" (.object [("a", .function c)]) false).final
      ((define.run Builtin.host).final start)
    let call : Moment := ⟨1, 0, .call (.function c) [], t⟩
    t.store.Built [c] ∧ t.store.Has c ∧ t.store.Linked [c] ∧
      ((call.run Builtin.host).final t).store.Linked [c] ∧
      (call.run Builtin.host).outcome t = .ok .null := by
  intro c start define t call
  have hhost (held : List Closure) : Builtin.host.ForwardingWith held :=
    Builtin.forwarding_host.forwardingWith held
  have hroot : (empty.newFrame none).2.Built [] :=
    .newFrame (s := .ofStore empty none (.still ⟨0⟩)) .empty nofun
  have hstart : start.store.Built [] :=
    .newFrame (s := .ofStore _ none (.still ⟨0⟩)) hroot fun p hp => Option.some.inj hp ▸ Nat.one_pos
  have hdefine : ((define.run Builtin.host).final start).store.Built [c] :=
    hstart.evaluate (m := define) (hhost []) (by decide) (List.nil_subset _)
  have ht : t.store.Built [c] :=
    hdefine.declare (by decide) "o" (by simp [Value.closures, Fields.closures]) false
  obtain ⟨hlinked, -, hmoments⟩ := references_lead_to_frames ht
  obtain ⟨-, -, hlast, -⟩ := hmoments _ call call rfl (hhost [c]) (by decide)
    (by simp [call, Code.closures, Value.closures]) .refl
  exact ⟨ht, ⟨1, _, rfl, List.mem_singleton_self c⟩, hlinked, hlast, rfl⟩

end Store

end ScopeScript
